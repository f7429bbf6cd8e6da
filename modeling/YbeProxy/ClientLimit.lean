import YbeProxy.Connection
import YbeProxy.Runs

/-!
# Clients of one address

`proxy_sv_maxClientsPerIP` over a whole run: clients connect for the first time to free slots, with any userinfo, and
disconnect. A slot keeps the real address of its client as long as the userinfo leaves the engine's `ip` pair alone.
-/

namespace YbeProxy.ClientLimit
open YbeProxy.Strings YbeProxy.KeyValueText YbeProxy.Infostrings YbeProxy.Addresses YbeProxy.Bans YbeProxy.Userinfo
open YbeProxy.Connection YbeProxy.Runs

inductive Occupant
  | free
  | bot
  | client (ip : Ipv4)
  deriving DecidableEq

structure Server where
  occupant : Slot → Occupant
  clientData : Slot → ClientData

def Server.started : Server := ⟨fun _ => .free, fun _ => .empty⟩

inductive Event
  | connect (clientNum : Slot) (settings : Settings) (ip : Ipv4) (port : UInt16) (userinfo : Infostring)
  | connectBot (clientNum : Slot) (settings : Settings) (userinfo : Infostring)
  | disconnect (clientNum : Slot)

/-- `GAME_CLIENT_CONNECT`: a refusal, or a new occupant of the slot. The game accepts whom the proxy accepts. -/
def join (limit : Int) (server : Server) (clientNum : Slot) (settings : Settings) (newcomer : Occupant) (isBot : Bool)
    (userinfo : Infostring) : Option CString × Server :=
  let result := clientConnect limit settings server.clientData clientNum true isBot userinfo
  match result.reason with
  | some reason => (some reason, { server with clientData := result.clientData })
  | none => (none, ⟨Function.update server.occupant clientNum newcomer,
      connected result.clientData clientNum isBot result.userinfo.text⟩)

/-- One event. The engine connects nobody to a slot in use, so such a connection changes nothing. -/
def serve (limit : Int) (server : Server) : Event → Option CString × Server
  | .connect clientNum settings ip port userinfo =>
    if server.occupant clientNum = .free then
      join limit server clientNum settings (.client ip) false (withAddress ip port userinfo)
    else (none, server)
  | .connectBot clientNum settings userinfo =>
    if server.occupant clientNum = .free then join limit server clientNum settings .bot true userinfo
    else (none, server)
  | .disconnect clientNum =>
    (none, ⟨Function.update server.occupant clientNum .free, clientDisconnect server.clientData clientNum⟩)

/-! ## Userinfos that leave the address alone -/

/-- Where the engine's pair fits, no colon of the client joins it; where it does not, the client names no address, or
its own. -/
def OwnAddress (ip : Ipv4) (port : UInt16) (userinfo : Infostring) : Prop :=
  if AddressFits ip port userinfo then ':' ∉ upTo '\\' (remaining userinfo).text
  else infoValueForKey (remaining userinfo).text keyIp = [] ∨
    getBaseAddress (infoValueForKey (remaining userinfo).text keyIp) addressSize = dottedQuad ip

instance (ip : Ipv4) (port : UInt16) (userinfo : Infostring) : Decidable (OwnAddress ip port userinfo) :=
  inferInstanceAs (Decidable (ite _ _ _))

theorem getBaseAddress_joined (ip : Ipv4) {rest : CString} (joined : ':' ∈ rest) :
    getBaseAddress (dottedQuad ip ++ ':' :: rest) addressSize ≠ dottedQuad ip := by
  have short := length_dottedQuad_le ip
  have size : addressSize = 32 := rfl
  obtain ⟨front, back, rfl, last⟩ : ∃ front back, rest = front ++ ':' :: back ∧ ':' ∉ back := by
    obtain ⟨back, front, split, last⟩ := List.eq_append_cons_of_mem (List.mem_reverse.mpr joined)
    refine ⟨front.reverse, back.reverse, ?_, ?_⟩
    · rw [← List.reverse_reverse rest, split]
      simp
    · rwa [List.mem_reverse]
  intro same
  have position : strrchr (dottedQuad ip ++ ':' :: (front ++ ':' :: back)) ':' =
      some (dottedQuad ip ++ ':' :: front).length := by
    rw [← strrchr_append last (w := dottedQuad ip ++ ':' :: front), List.append_assoc, List.cons_append]
  have lengths := congrArg List.length same
  rw [getBaseAddress, position, Option.getD_some, qStrncpyz, List.length_take] at lengths
  simp only [List.length_append, List.length_cons] at lengths
  split at lengths <;> omega

/-- These are exactly the userinfos with no `ip` value, which are refused, or with the base address of the client. -/
theorem ownAddress_iff (ip : Ipv4) (port : UInt16) (userinfo : Infostring) :
    OwnAddress ip port userinfo ↔
      infoValueForKey (withAddress ip port userinfo).text keyIp = [] ∨
        getBaseAddress (infoValueForKey (withAddress ip port userinfo).text keyIp) addressSize = dottedQuad ip := by
  rw [OwnAddress]
  by_cases fits : AddressFits ip port userinfo
  · rw [if_pos fits, ip_of_fits fits]
    constructor
    · intro apart
      refine Or.inr (getBaseAddress_adr ip ?_)
      rw [List.mem_append]
      rintro (port | joined)
      · exact colon_not_mem_decimal _ port
      · exact apart joined
    · rintro (missing | same) joined
      · simp at missing
      · exact getBaseAddress_joined ip (List.mem_append_right _ joined) same
  · rw [if_neg fits, withAddress_of_full fits]

def Event.Ordinary : Event → Prop
  | .connect _ _ ip port userinfo => OwnAddress ip port userinfo
  | .connectBot _ _ _ => True
  | .disconnect _ => True

/-! ## One connection -/

@[simp] theorem address_withName (clientData : Slot → ClientData) (clientNum i : Slot) (name : Option CString) :
    (withName clientData clientNum name i).address = (clientData i).address := by
  cases name with
  | none => rfl
  | some name => by_cases same : i = clientNum <;> simp [withName, same]

@[simp] theorem address_withWelcome (clientData : Slot → ClientData) (clientNum i : Slot) (welcome : Bool) :
    (withWelcome clientData clientNum welcome i).address = (clientData i).address := by
  by_cases same : i = clientNum <;> simp [withWelcome, same]

theorem address_clientConnect (limit : Int) (settings : Settings) (clientData : Slot → ClientData)
    (clientNum i : Slot) (firstTime isBot : Bool) (userinfo : Infostring) :
    ((clientConnect limit settings clientData clientNum firstTime isBot userinfo).clientData i).address =
      (clientData i).address := by
  rw [clientConnect]
  split
  · exact address_withWelcome clientData clientNum i false
  · split
    · rfl
    · dsimp only
      split <;> simp

/-- A client that is accepted has an `ip` value, keeps it, and is not one too many for its base address. -/
theorem clientConnect_accepted {limit : Int} {settings : Settings} {clientData : Slot → ClientData} {clientNum : Slot}
    {userinfo : Infostring}
    (accepted : (clientConnect limit settings clientData clientNum true false userinfo).reason = none) :
    infoValueForKey userinfo.text keyIp ≠ [] ∧
    crowded limit clientData clientNum true (infoValueForKey userinfo.text keyIp) = false ∧
    infoValueForKey (clientConnect limit settings clientData clientNum true false userinfo).userinfo.text keyIp =
      infoValueForKey userinfo.text keyIp := by
  have welcome : ¬ RefusedAnyway limit settings clientData clientNum true userinfo := by
    rw [← refused_iff, accepted]
    exact Bool.false_ne_true
  simp only [RefusedAnyway, not_or, Bool.not_eq_true, Option.isSome_eq_false_iff, Option.isNone_iff_eq_none] at welcome
  obtain ⟨present, banned, few, sound⟩ := welcome
  refine ⟨present, few, ?_⟩
  have passed : check limit settings clientData clientNum true userinfo.text = none := by
    rw [check]
    simp [present, banned, few]
  rw [clientConnect, if_neg Bool.false_ne_true, passed]
  simp only [sound]
  exact sanitize_keeps_ip sound

/-! ## The invariant -/

def clients (server : Server) (ip : Ipv4) : Nat :=
  (List.finRange maxClients).countP fun i => server.occupant i = .client ip

/-- The address kept for a slot: empty for a bot and for a free slot. -/
def Occupant.address : Occupant → CString
  | .client ip => dottedQuad ip
  | _ => []

structure Inv (limit : Int) (server : Server) : Prop where
  addresses : ∀ i, (server.clientData i).address = (server.occupant i).address
  few : ∀ ip, clients server ip ≤ limit

theorem Occupant.address_eq_iff {occupant : Occupant} {ip : Ipv4} :
    occupant.address = dottedQuad ip ↔ occupant = .client ip := by
  cases occupant with
  | free => simpa [Occupant.address] using (dottedQuad_ne_nil ip).symm
  | bot => simpa [Occupant.address] using (dottedQuad_ne_nil ip).symm
  | client other =>
    constructor
    · intro same
      rw [dottedQuad_injective same]
    · rintro ⟨⟩
      rfl

/-- A slot that changes hands adds at most its new occupant. -/
theorem clients_update_le (server : Server) (clientNum : Slot) (newcomer : Occupant)
    (clientData : Slot → ClientData) (ip : Ipv4) :
    clients ⟨Function.update server.occupant clientNum newcomer, clientData⟩ ip ≤
      clients server ip + if newcomer = .client ip then 1 else 0 := by
  have split (l : List Slot) (distinct : l.Nodup) :
      l.countP (fun i => Function.update server.occupant clientNum newcomer i = .client ip) ≤
        l.countP (fun i => server.occupant i = .client ip) + if newcomer = .client ip then 1 else 0 := by
    induction l with
    | nil => exact Nat.zero_le _
    | cons i rest hypothesis =>
      obtain ⟨fresh, tail⟩ := List.nodup_cons.mp distinct
      by_cases same : i = clientNum
      · have others : rest.countP (fun i => Function.update server.occupant clientNum newcomer i = .client ip) =
            rest.countP (fun i => server.occupant i = .client ip) := by
          apply List.countP_congr
          intro j member
          have apart : j ≠ clientNum := by
            rintro rfl
            exact fresh (same ▸ member)
          simp [apart]
        rw [List.countP_cons, List.countP_cons, others, same]
        simp only [Function.update_self, decide_eq_true_eq]
        omega
      · have later := hypothesis tail
        rw [List.countP_cons, List.countP_cons, Function.update_of_ne same]
        omega
  exact split _ (List.nodup_finRange maxClients)

/-- The scan of a free slot's client counts exactly the slots of its address. -/
theorem others_eq {limit : Int} {server : Server} (inv : Inv limit server) {clientNum : Slot}
    (free : server.occupant clientNum = .free) (ip : Ipv4) :
    others server.clientData clientNum (dottedQuad ip) = clients server ip := by
  apply List.countP_congr
  intro i _
  have mine : i = clientNum → server.occupant i ≠ .client ip := by
    rintro rfl held
    rw [free] at held
    cases held
  rw [inv.addresses i]
  simp only [Bool.and_eq_true, decide_eq_true_eq, beq_iff_eq, Occupant.address_eq_iff]
  constructor
  · rintro ⟨_, held⟩
    exact held
  · intro held
    exact ⟨fun same => mine same held, held⟩

/-! ## Runs -/

/-- A slot that changes hands with the address of its new occupant. -/
theorem inv_update {limit : Int} {server : Server} (inv : Inv limit server) (clientNum : Slot) {newcomer : Occupant}
    {clientData : Slot → ClientData} (kept : ∀ i, i ≠ clientNum → (clientData i).address = (server.clientData i).address)
    (address : (clientData clientNum).address = newcomer.address)
    (room : ∀ ip, newcomer = .client ip → clients server ip < limit) :
    Inv limit ⟨Function.update server.occupant clientNum newcomer, clientData⟩ := by
  constructor
  · intro i
    by_cases same : i = clientNum
    · subst same
      simpa using address
    · simp only [Function.update_of_ne same]
      rw [kept i same, inv.addresses i]
  · intro ip
    have more := clients_update_le server clientNum newcomer clientData ip
    have before := inv.few ip
    by_cases joins : newcomer = .client ip
    · have below := room ip joins
      rw [if_pos joins] at more
      omega
    · rw [if_neg joins] at more
      omega

theorem inv_join {limit : Int} (positive : 0 < limit) {server : Server} (inv : Inv limit server) {clientNum : Slot}
    (free : server.occupant clientNum = .free) (settings : Settings) {ip : Ipv4} {port : UInt16} {userinfo : Infostring}
    (own : OwnAddress ip port userinfo) :
    Inv limit (join limit server clientNum settings (.client ip) false (withAddress ip port userinfo)).2 := by
  rw [join]
  cases answer : (clientConnect limit settings server.clientData clientNum true false
      (withAddress ip port userinfo)).reason with
  | some reason =>
    refine ⟨?_, inv.few⟩
    intro i
    exact (address_clientConnect ..).trans (inv.addresses i)
  | none =>
    obtain ⟨present, few, keeps⟩ := clientConnect_accepted answer
    have base := ((ownAddress_iff ip port userinfo).mp own).resolve_left present
    apply inv_update inv clientNum
    · intro i other
      simp only [connected, Bool.false_eq_true, if_false, Function.update_of_ne other]
      exact address_clientConnect ..
    · simp only [connected, Bool.false_eq_true, if_false, Function.update_self, keeps]
      exact base
    · rintro other ⟨⟩
      have below : clients server ip < limit := by
        simpa [crowded, positive, base, others_eq inv free] using few
      exact below

theorem inv_joinBot {limit : Int} {server : Server} (inv : Inv limit server) {clientNum : Slot}
    (free : server.occupant clientNum = .free) (settings : Settings) (userinfo : Infostring) :
    Inv limit (join limit server clientNum settings .bot true userinfo).2 := by
  have same (i : Slot) := address_clientConnect limit settings server.clientData clientNum i true true userinfo
  rw [join]
  have welcome : (clientConnect limit settings server.clientData clientNum true true userinfo).reason = none := rfl
  simp only [welcome, connected, if_true]
  apply inv_update inv clientNum
  · intro i _
    exact same i
  · rw [same, inv.addresses, free]
    rfl
  · rintro ip ⟨⟩

theorem inv_serve {limit : Int} (positive : 0 < limit) {server : Server} (inv : Inv limit server) {event : Event}
    (ordinary : event.Ordinary) : Inv limit (serve limit server event).2 := by
  cases event with
  | connect clientNum settings ip port userinfo =>
    rw [serve]
    split
    · rename_i free
      exact inv_join positive inv free settings ordinary
    · exact inv
  | connectBot clientNum settings userinfo =>
    rw [serve]
    split
    · rename_i free
      exact inv_joinBot inv free settings userinfo
    · exact inv
  | disconnect clientNum =>
    apply inv_update inv clientNum
    · intro i other
      rw [clientDisconnect, Function.update_of_ne other]
    · rw [clientDisconnect, Function.update_self]
      rfl
    · rintro ip ⟨⟩

theorem inv_started {limit : Int} (positive : 0 < limit) : Inv limit .started := by
  constructor
  · intro i
    rfl
  · intro ip
    have none : clients .started ip = 0 := List.countP_eq_zero.mpr (by simp [Server.started])
    omega

/-- In every run of ordinary events no address has more clients than the limit. -/
theorem clients_limited {limit : Int} (positive : 0 < limit) {events : List Event}
    (ordinary : ∀ event ∈ events, event.Ordinary) (ip : Ipv4) :
    clients (final (serve limit) .started events) ip ≤ limit := by
  have inv : Inv limit (final (serve limit) .started events) := by
    apply final_keeps (serve limit) (Inv limit)
    · intro event member server before
      exact inv_serve positive before (ordinary event member)
    · exact inv_started positive
  exact inv.few ip

def slotOne : Slot := ⟨1, by decide⟩

/-- Two clients of one address connect, with this userinfo and from two ports. -/
def twoClients (userinfo : Infostring) : List Event :=
  [.connect slotZero ⟨⟨true, []⟩, ⟨false, 64, fun _ => []⟩⟩ bannedIp 29070 userinfo,
    .connect slotOne ⟨⟨true, []⟩, ⟨false, 64, fun i => if i = 0 then "n\\Bob\\t\\0".toList else []⟩⟩ bannedIp 29071 userinfo]

/-- Text with a colon in front of the first pair hides that the two clients share an address. -/
theorem clients_exceeded :
    clients (final (serve 1) .started (twoClients (.copy ("x:1".toList ++ requiredPairs)))) bannedIp = 2 := by
  decide +kernel

theorem twoClients_ordinary : ∀ event ∈ twoClients (.copy requiredPairs), event.Ordinary := by
  have own (port : UInt16) (listed : port = 29070 ∨ port = 29071) :
      OwnAddress bannedIp port (.copy requiredPairs) := by
    rcases listed with rfl | rfl <;> decide +kernel
  intro event member
  rcases List.mem_cons.mp member with rfl | later
  · exact own 29070 (Or.inl rfl)
  · obtain rfl := List.mem_singleton.mp later
    exact own 29071 (Or.inr rfl)

theorem clients_limited_sample :
    clients (final (serve 1) .started (twoClients (.copy requiredPairs))) bannedIp ≤ (1 : Int) :=
  clients_limited (by decide) twoClients_ordinary bannedIp

end YbeProxy.ClientLimit
