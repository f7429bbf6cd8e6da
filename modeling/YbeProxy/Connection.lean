import YbeProxy.Bans
import YbeProxy.Userinfo

/-!
# Connections

`Features/Connection.cpp` and the connection entry points of `Module/GameExports.cpp`: the checks of a client that
connects, and the address kept for each slot. Before them the engine puts the address in the `ip` key of the userinfo.
-/

namespace YbeProxy.Connection
open YbeProxy.Strings YbeProxy.KeyValueText YbeProxy.Infostrings YbeProxy.Addresses YbeProxy.Bans YbeProxy.Userinfo

abbrev Slot := Fin maxClients

structure ClientData where
  isConnected : Bool
  sendWelcomeMessage : Bool
  cleanName : CString
  address : CString

def ClientData.empty : ClientData := ⟨false, false, [], []⟩

structure Settings where
  bans : BanList
  environment : Environment

def keyIp : CString := "ip".toList

def addressSize : Nat := 32

/-- `GetBaseAddress`: the text up to its last colon. -/
def getBaseAddress (ip : CString) (outSize : Nat) : CString :=
  let len := (strrchr ip ':').getD ip.length
  qStrncpyz ip (if outSize < len + 1 then outSize else len + 1)

def others (clientData : Slot → ClientData) (clientNum : Slot) (address : CString) : Nat :=
  (List.finRange maxClients).countP fun i => i ≠ clientNum && (clientData i).address == address

/-- A new connection from an address whose other clients reach `proxy_sv_maxClientsPerIP`. -/
def crowded (limit : Int) (clientData : Slot → ClientData) (clientNum : Slot) (firstTime : Bool) (ip : CString) : Bool :=
  firstTime && 0 < limit && limit ≤ others clientData clientNum (getBaseAddress ip addressSize)

/-- `Check`: none, or why the client is refused. -/
def check (limit : Int) (settings : Settings) (clientData : Slot → ClientData) (clientNum : Slot) (firstTime : Bool)
    (userinfo : CString) : Option CString :=
  let ip := infoValueForKey userinfo keyIp
  if ip = [] then some "Userinfo string length exceeded.  Try removing setu cvars from your config.".toList
  else if isBanned settings.bans ip then some "Banned.".toList
  else if crowded limit clientData clientNum firstTime ip then some "Too many connections from your IP address.".toList
  else none

def connected (clientData : Slot → ClientData) (clientNum : Slot) (isBot : Bool) (userinfo : CString) :
    Slot → ClientData :=
  if isBot then clientData
  else Function.update clientData clientNum { clientData clientNum with
    address := getBaseAddress (infoValueForKey userinfo keyIp) addressSize }

/-- What `ClientConnect` leaves: its reason to refuse, the data of the clients and the userinfo that the engine holds. -/
structure Connected where
  reason : Option CString
  clientData : Slot → ClientData
  userinfo : Infostring

def withName (clientData : Slot → ClientData) (clientNum : Slot) : Option CString → Slot → ClientData
  | some name => Function.update clientData clientNum { clientData clientNum with cleanName := name }
  | none => clientData

def withWelcome (clientData : Slot → ClientData) (clientNum : Slot) (welcome : Bool) : Slot → ClientData :=
  Function.update clientData clientNum { clientData clientNum with sendWelcomeMessage := welcome }

def clientConnect (limit : Int) (settings : Settings) (clientData : Slot → ClientData) (clientNum : Slot)
    (firstTime isBot : Bool) (userinfo : Infostring) : Connected :=
  if isBot then ⟨none, withWelcome clientData clientNum false, userinfo⟩
  else match check limit settings clientData clientNum firstTime userinfo.text with
    | some reason => ⟨some reason, clientData, userinfo⟩
    | none =>
      let sanitized := sanitize settings.environment clientNum true userinfo
      let clientData := withName clientData clientNum sanitized.cleanName
      match sanitized.refusal with
      | some refusal => ⟨some refusal.reason, clientData, sanitized.userinfo⟩
      | none => ⟨none, withWelcome clientData clientNum firstTime, sanitized.userinfo⟩

def clientDisconnect (clientData : Slot → ClientData) (clientNum : Slot) : Slot → ClientData :=
  Function.update clientData clientNum .empty

/-- The engine before `GAME_CLIENT_CONNECT`: the address is set in the userinfo, and the result is not looked at. -/
def withAddress (ip : Ipv4) (port : UInt16) (userinfo : Infostring) : Infostring :=
  (userinfo.set keyIp (adrString ip port)).2

/-! ## The `ip` value -/

def AddressFits (ip : Ipv4) (port : UInt16) (userinfo : Infostring) : Prop :=
  Room userinfo.text keyIp (adrString ip port)

instance (ip : Ipv4) (port : UInt16) (userinfo : Infostring) : Decidable (AddressFits ip port userinfo) :=
  inferInstanceAs (Decidable (Room _ _ _))

/-- What the userinfo of the client holds beside its own `ip` pair, which is removed with the same case only. -/
def remaining (userinfo : Infostring) : Infostring :=
  ⟨infoRemoveKey userinfo.text keyIp, (length_infoRemoveKey_le userinfo.text keyIp).trans_lt userinfo.fits⟩

theorem withAddress_of_fits {ip : Ipv4} {port : UInt16} {userinfo : Infostring} (fits : AddressFits ip port userinfo) :
    (withAddress ip port userinfo).text = entry '\\' keyIp (adrString ip port) ++ (remaining userinfo).text := by
  have done := infoSetValueForKey_of_room (by decide) (plain_adrString ip port) (adrString_ne_nil ip port) fits
  rw [withAddress, Infostring.set]
  simp only [done]
  rfl

theorem withAddress_of_full {ip : Ipv4} {port : UInt16} {userinfo : Infostring} (full : ¬ AddressFits ip port userinfo) :
    withAddress ip port userinfo = remaining userinfo := by
  have bound := length_adrString_le ip port
  have sizes : keyIp.length = 2 ∧ maxInfoString = 1024 := by decide
  have done := infoSetValueForKey_of_full (by decide) (plain_adrString ip port) (adrString_ne_nil ip port)
    (by omega) full
  rw [withAddress, Infostring.set, remaining]
  simp only [done]

theorem ip_of_fits {ip : Ipv4} {port : UInt16} {userinfo : Infostring} (fits : AddressFits ip port userinfo) :
    infoValueForKey (withAddress ip port userinfo).text keyIp =
      dottedQuad ip ++ ':' :: (decimal port.toNat ++ upTo '\\' (remaining userinfo).text) := by
  rw [withAddress_of_fits fits, infoValueForKey_entry_joined (by decide) (plain_adrString ip port),
    if_pos (by decide), adrString]
  simp

/-- The base address is the dotted address where no colon joins the port. -/
theorem getBaseAddress_adr (ip : Ipv4) {rest : CString} (last : ':' ∉ rest) :
    getBaseAddress (dottedQuad ip ++ ':' :: rest) addressSize = dottedQuad ip := by
  have short := length_dottedQuad_le ip
  have size : addressSize = 32 := rfl
  rw [getBaseAddress, strrchr_append last, Option.getD_some, if_neg (by omega), qStrncpyz, Nat.add_sub_cancel,
    List.take_left']
  rfl

/-! ## Banned addresses -/

/-- The userinfo is refused for itself, wherever it comes from. -/
def RefusedAnyway (limit : Int) (settings : Settings) (clientData : Slot → ClientData) (clientNum : Slot)
    (firstTime : Bool) (userinfo : Infostring) : Prop :=
  infoValueForKey userinfo.text keyIp = [] ∨
  isBanned settings.bans (infoValueForKey userinfo.text keyIp) = true ∨
  crowded limit clientData clientNum firstTime (infoValueForKey userinfo.text keyIp) = true ∨
  (sanitize settings.environment clientNum true userinfo).refusal.isSome = true

theorem refused_iff (limit : Int) (settings : Settings) (clientData : Slot → ClientData) (clientNum : Slot)
    (firstTime : Bool) (userinfo : Infostring) :
    (clientConnect limit settings clientData clientNum firstTime false userinfo).reason.isSome = true ↔
      RefusedAnyway limit settings clientData clientNum firstTime userinfo := by
  rw [clientConnect, if_neg Bool.false_ne_true, check, RefusedAnyway]
  by_cases missing : infoValueForKey userinfo.text keyIp = []
  · simp [missing]
  · by_cases banned : isBanned settings.bans (infoValueForKey userinfo.text keyIp) = true
    · simp [missing, banned]
    · by_cases many : crowded limit clientData clientNum firstTime (infoValueForKey userinfo.text keyIp) = true
      · simp [missing, banned, many]
      · cases refusal : (sanitize settings.environment clientNum true userinfo).refusal with
        | none => simp [missing, banned, many, refusal]
        | some reason => simp [missing, banned, many, refusal]

/-- A client from a banned address is refused exactly when the engine's `ip` pair fits in its userinfo, or what the
client wrote beside that pair is refused for itself. -/
theorem banned_refused_iff (limit : Int) (settings : Settings) (clientData : Slot → ClientData) (clientNum : Slot)
    (firstTime : Bool) (userinfo : Infostring) {ip : Ipv4} (port : UInt16) {filter : IpFilter}
    (active : settings.bans.active = true) (listed : filter ∈ settings.bans.ipFilters) (banned : Matches filter ip) :
    (clientConnect limit settings clientData clientNum firstTime false
        (withAddress ip port userinfo)).reason.isSome = true ↔
      AddressFits ip port userinfo ∨
        RefusedAnyway limit settings clientData clientNum firstTime (remaining userinfo) := by
  rw [refused_iff]
  by_cases fits : AddressFits ip port userinfo
  · constructor
    · intro _
      exact Or.inl fits
    · intro _
      refine Or.inr (Or.inl ?_)
      rw [ip_of_fits fits]
      exact isBanned_of_matches active listed banned _
  · rw [withAddress_of_full fits]
    constructor
    · intro refused
      exact Or.inr refused
    · rintro (room | refused)
      · exact absurd room fits
      · exact refused

def bannedIp : Ipv4 := ⟨10, 20, 30, 40⟩
def bannedFilter : IpFilter := ⟨true, [.exact 10, .exact 20, .exact 30, .exact 40], rfl⟩
def slotZero : Slot := ⟨0, by decide⟩

/-- `addip 10.20.30.40` on an empty list, with the cvars of a fresh server. -/
def oneBan : Settings := ⟨(addIP ⟨true, []⟩ "10.20.30.40".toList false).2, ⟨false, 64, fun _ => []⟩⟩

theorem bannedFilter_listed : bannedFilter ∈ oneBan.bans.ipFilters := by decide +kernel

theorem bannedFilter_matches : Matches bannedFilter bannedIp :=
  ⟨rfl, .cons (Or.inr rfl) (.cons (Or.inr rfl) (.cons (Or.inr rfl) (.cons (Or.inr rfl) .nil)))⟩

def requiredPairs : CString :=
  "\\name\\Bob\\rate\\25000\\snaps\\40\\model\\kyle\\forcepowers\\7-1-032330000000001333\\color1\\4\\color2\\4".toList ++
    "\\handicap\\100\\cg_predictItems\\1\\saber1\\single_1\\saber2\\none".toList ++
    "\\char_color_red\\255\\char_color_green\\255\\char_color_blue\\255".toList

/-- A userinfo of 1010 characters with an address of its own under `IP`. -/
def fullUserinfo : Infostring :=
  .copy ("\\IP\\1.2.3.4".toList ++ requiredPairs ++ "\\x\\".toList ++ List.replicate 784 'y')

theorem banned_accepted :
    bannedFilter ∈ oneBan.bans.ipFilters ∧ Matches bannedFilter bannedIp ∧ oneBan.bans.active = true ∧
      fullUserinfo.text.length = 1010 ∧
      (clientConnect 0 oneBan (fun _ => .empty) slotZero true false
        (withAddress bannedIp 29070 fullUserinfo)).reason = none :=
  ⟨bannedFilter_listed, bannedFilter_matches, by decide +kernel, by decide +kernel, by decide +kernel⟩

theorem banned_refused_sample :
    (clientConnect 0 oneBan (fun _ => .empty) slotZero true false
      (withAddress bannedIp 29070 (.copy requiredPairs))).reason.isSome = true :=
  (banned_refused_iff 0 oneBan (fun _ => .empty) slotZero true (.copy requiredPairs) 29070 (by decide +kernel)
    bannedFilter_listed bannedFilter_matches).mpr (Or.inl (by decide +kernel))

end YbeProxy.Connection
