import YbeProxy.UserinfoChanged
import YbeProxy.UserinfoWrites
import YbeProxy.ClientMessage
import YbeProxy.Runs

/-!
# Rate settings

`UpdateAll` of `Features/Cvars.cpp` and `SettingsChanged` of `Engine/Rate.cpp`, on the original engine. A client keeps the
rate and the snapshot interval that `rate::Apply` gave it when its userinfo changed; the cvars they come from are read
once per second of server time, and a change of theirs is applied to every client again. `sv_fps` alone is read from the
engine each time. Server times are not negative, so that no difference of two overflows.
-/

namespace YbeProxy.RateSettings
open YbeProxy.Strings YbeProxy.Infostrings YbeProxy.Addresses YbeProxy.UserinfoChanged YbeProxy.Runs
open YbeProxy.ClientMessage (ClientState)
open YbeProxy.Userinfo (Environment)
open YbeProxy.UserinfoWrites (setUserinfo setUserinfo_keeps)

/-! ## The values of a client -/

def keyRate : CString := "rate".toList
def keySnaps : CString := "snaps".toList

/-- The frames per second that the engine will run with. -/
def framesPerSecond (v : Cvars) : Int := if v.svFps < 1 then 10 else v.svFps
def snapsCap (v : Cvars) : Int := if 0 < v.svMaxSnaps then min v.svMaxSnaps (framesPerSecond v) else framesPerSecond v

/-- The snaps that a client asks for, in the bounds of the server. -/
def snapsOf (v : Cvars) (value : CString) : Int :=
  max 1 (min (snapsCap v) (max v.svMinSnaps (if value = [] then 20 else atoi value)))

/-- A client has the rate and the snapshot interval of these settings. -/
structure InForce (own : CString → Netadr → Int) (v : Cvars) (client : Client) : Prop where
  rate : client.rate = max (own (infoValueForKey client.userinfo.text keyRate) client.remoteAddress) v.svMinRate
  snapshots : client.snapshotMsec = 1000 / snapsOf v (infoValueForKey client.userinfo.text keySnaps)

/-- What is relied on: the rate that the original function gives is a function of the `rate` key and of the address. -/
structure Reads (E : Engine) (own : CString → Netadr → Int) : Prop where
  rate : ∀ cl, (E.originalSvUserinfoChanged cl).rate =
    own (infoValueForKey (E.originalSvUserinfoChanged cl).userinfo.text keyRate) cl.remoteAddress
  address : ∀ cl, (E.originalSvUserinfoChanged cl).remoteAddress = cl.remoteAddress

theorem rateApply_inForce {own : CString → Netadr → Int} (v : Cvars) {cl : Client}
    (rate : cl.rate = own (infoValueForKey cl.userinfo.text keyRate) cl.remoteAddress) : InForce own v (rateApply v cl) := by
  constructor
  · simp only [rateApply, ← rate]
    split <;> omega
  · simp only [rateApply, snapsOf, snapsCap, framesPerSecond, keySnaps]
    congr 1
    have least : (1 : Int) ≤ if v.svFps < 1 then 10 else v.svFps := by
      split <;> omega
    generalize (if v.svFps < 1 then 10 else v.svFps) = fps at least ⊢
    by_cases asked : infoValueForKey cl.userinfo.text "snaps".toList = []
    · simp only [asked, ne_eq, not_true_eq_false, if_false, if_true]
      split_ifs <;> omega
    · simp only [asked, ne_eq, not_false_eq_true, if_false, if_true]
      split_ifs <;> omega

theorem proxySvUserinfoChanged_inForce {E : Engine} {own : CString → Netadr → Int} (reads : Reads E own) (v : Cvars)
    (cl : Client) (kept : (proxySvUserinfoChanged E v cl).dropped = none) :
    InForce own v (proxySvUserinfoChanged E v cl).client := by
  have applied (cl : Client) : InForce own v (rateApply v (E.originalSvUserinfoChanged cl)) :=
    rateApply_inForce v (by rw [reads.rate, reads.address])
  revert kept
  rw [proxySvUserinfoChanged]
  split
  · simp
  · dsimp only
    split
    · split
      · simp
      · exact fun _ => applied _
    · exact fun _ => applied _

/-! ## The server -/

structure SlotClient extends Client where
  state : ClientState
  /-- The last change of its userinfo has dropped the client. -/
  dropped : Bool
  deriving DecidableEq

/-- `state >= CS_CONNECTED`. -/
def connected : ClientState → Bool
  | .csFree => false
  | .csZombie => false
  | .csConnected => true
  | .csPrimed => true
  | .csActive => true

def SlotClient.human (client : SlotClient) : Bool := connected client.state && client.remoteAddress.type ≠ .naBot

/-- `appliedRates` of `updateState`. -/
structure Rates where
  svMinRate : Int
  svMinSnaps : Int
  svMaxSnaps : Int
  svFps : Int
  deriving DecidableEq

def rates (v : Cvars) : Rates := ⟨v.svMinRate, v.svMinSnaps, v.svMaxSnaps, v.svFps⟩

/-- The server, with `sv_maxclients` slots. -/
structure Server (maxclients : Nat) where
  clients : Fin maxclients → SlotClient
  /-- The cvars as the last update read them. -/
  cvars : Cvars
  lastUpdateTime : Int
  appliedRates : Rates

/-- A module just loaded. -/
def Server.init {maxclients : Nat} (clients : Fin maxclients → SlotClient) (registered : Cvars) : Server maxclients :=
  ⟨clients, registered, 0, ⟨0, 0, 0, 0⟩⟩

inductive Request
  | dropClient (clientNum : Nat) (reason : CString)
  | cvarSet (name value : CString)
  deriving DecidableEq

variable (E : Engine) {maxclients : Nat}

/-- A client after `Proxy_SV_UserinfoChanged`. -/
def changed (v : Cvars) (client : SlotClient) : SlotClient :=
  let outcome := proxySvUserinfoChanged E v client.toClient
  ⟨outcome.client, if outcome.dropped.isSome then .csZombie else client.state, outcome.dropped.isSome⟩

def drops (v : Cvars) (clientNum : Nat) (client : SlotClient) : List Request :=
  ((proxySvUserinfoChanged E v client.toClient).dropped.map (.dropClient clientNum)).toList

def userinfoChanged (server : Server maxclients) (svFps : Int) (clientNum : Fin maxclients) (client : SlotClient) :
    List Request × Server maxclients :=
  let v := { server.cvars with svFps }
  (drops E v clientNum client, { server with clients := Function.update server.clients clientNum (changed E v client) })

def settingsChanged (server : Server maxclients) (svFps : Int) : List Request × Server maxclients :=
  let v := { server.cvars with svFps }
  let humans := (List.finRange maxclients).filter fun i => (server.clients i).human
  (humans.flatMap fun i : Fin maxclients => drops E v i (server.clients i),
    { server with clients := fun i => if (server.clients i).human then changed E v (server.clients i) else server.clients i })

/-- The cvars of the engine at a frame. -/
structure Live extends Cvars where
  proxySvDisableServerInfoVersion : Bool

def Server.due (server : Server maxclients) (levelTime : Int) : Bool :=
  levelTime < server.lastUpdateTime || levelTime - server.lastUpdateTime ≥ 1000

def updateServerInfoVersion (live : Live) : Request :=
  .cvarSet "YbeProxy".toList (if live.proxySvDisableServerInfoVersion then [] else "1.0.0".toList)

def updateAll (server : Server maxclients) (levelTime : Int) (live : Live) : List Request × Server maxclients :=
  if server.due levelTime then
    let server := { server with lastUpdateTime := levelTime, cvars := live.toCvars }
    if server.appliedRates ≠ rates live.toCvars then
      let told := settingsChanged E { server with appliedRates := rates live.toCvars } live.svFps
      (updateServerInfoVersion live :: told.1, told.2)
    else ([updateServerInfoVersion live], server)
  else ([], server)

/-! ## Runs -/

inductive Event (maxclients : Nat)
  | runFrame (levelTime : Int) (live : Live)
  /-- The engine has filled the slot of a client that the game accepted. -/
  | connect (clientNum : Fin maxclients) (client : Client) (svFps : Int)
  | addBot (clientNum : Fin maxclients) (client : Client)
  /-- The `userinfo` command of a client. -/
  | userinfo (clientNum : Fin maxclients) (userinfo : Infostring) (svFps : Int)
  /-- The proxy writes back the userinfo of a client that is no bot, as `Sanitize` leaves it. -/
  | sanitize (clientNum : Fin maxclients) (env : Environment)
  /-- The game writes a userinfo back: nothing is read from it. -/
  | setUserinfo (clientNum : Fin maxclients) (userinfo : Infostring)
  /-- A connected client goes on to another state, or leaves. -/
  | moves (clientNum : Fin maxclients) (state : ClientState)

def setClient (server : Server maxclients) (clientNum : Fin maxclients) (client : SlotClient) : Server maxclients :=
  { server with clients := Function.update server.clients clientNum client }

/-- The engine has called `SV_UserinfoChanged`, and sets the state behind it, whether that has dropped the client or not. -/
def connectClient (server : Server maxclients) (svFps : Int) (clientNum : Fin maxclients) (client : Client) :
    List Request × Server maxclients :=
  let told := userinfoChanged E server svFps clientNum ⟨client, .csFree, false⟩
  (told.1, setClient told.2 clientNum { told.2.clients clientNum with state := .csConnected })

def step (server : Server maxclients) : Event maxclients → List Request × Server maxclients
  | .runFrame levelTime live => updateAll E server levelTime live
  | .connect clientNum client svFps => connectClient E server svFps clientNum client
  | .addBot clientNum client =>
    ([], setClient server clientNum
      ⟨{ client with remoteAddress := { client.remoteAddress with type := .naBot } }, .csActive, false⟩)
  | .userinfo clientNum userinfo svFps =>
    userinfoChanged E server svFps clientNum { server.clients clientNum with userinfo }
  | .sanitize clientNum env =>
    ([], match setUserinfo env clientNum true (server.clients clientNum).userinfo with
      | some userinfo => setClient server clientNum { server.clients clientNum with userinfo }
      | none => server)
  | .setUserinfo clientNum userinfo => ([], setClient server clientNum { server.clients clientNum with userinfo })
  | .moves clientNum state =>
    ([], if connected (server.clients clientNum).state then
      setClient server clientNum { server.clients clientNum with state } else server)

/-- The `sv_fps` with which an event computes the snapshot interval of a client. -/
def Event.fps (clientNum : Fin maxclients) : Event maxclients → Option Int
  | .connect i _ svFps => if i = clientNum then some svFps else none
  | .userinfo i _ svFps => if i = clientNum then some svFps else none
  | _ => none

def KeepsValues (client : SlotClient) (userinfo : Infostring) : Prop :=
  ∀ key ∈ [keyRate, keySnaps], infoValueForKey userinfo.text key = infoValueForKey client.userinfo.text key

/-- What the game writes back has the rate and the snaps of what it read. -/
def Keeps (server : Server maxclients) : Event maxclients → Prop
  | .setUserinfo clientNum userinfo => KeepsValues (server.clients clientNum) userinfo
  | _ => True

/-- What the proxy writes back has them. -/
theorem keepsValues_of_sanitize {env : Environment} {clientNum : Nat} {client : SlotClient} {written : Infostring}
    (called : setUserinfo env clientNum true client.userinfo = some written) : KeepsValues client written := by
  refine List.forall_mem_cons.mpr ⟨?_, List.forall_mem_singleton.mpr ?_⟩
  · exact setUserinfo_keeps called (by decide)
  · exact setUserinfo_keeps called (by decide)

/-! ## The invariant -/

/-- Every human client that its last change did not drop has the values of the cvars that were read last, with their
`sv_fps` or with one that was live when its userinfo changed. -/
structure Follows (own : CString → Netadr → Int) (live : Fin maxclients → Int → Prop) (server : Server maxclients) :
    Prop where
  applied : server.appliedRates = rates server.cvars
  clients : ∀ n, (server.clients n).human = true → (server.clients n).dropped = false →
    ∃ svFps, (svFps = server.cvars.svFps ∨ live n svFps) ∧
      InForce own { server.cvars with svFps } (server.clients n).toClient

/-- The settings that count for a rate are the four that are compared. -/
theorem InForce.of_rates {own : CString → Netadr → Int} {v w : Cvars} (same : rates v = rates w) {svFps : Int}
    {client : Client} (holds : InForce own { v with svFps } client) : InForce own { w with svFps } client := by
  obtain ⟨rate, minSnaps, maxSnaps, _⟩ := Rates.mk.inj same
  refine ⟨by rw [holds.rate, rate], ?_⟩
  rw [holds.snapshots]
  simp only [snapsOf, snapsCap, framesPerSecond, minSnaps, maxSnaps]

theorem changed_inForce {E : Engine} {own : CString → Netadr → Int} (reads : Reads E own) (v : Cvars)
    {client : SlotClient} (kept : (changed E v client).dropped = false) : InForce own v (changed E v client).toClient := by
  refine proxySvUserinfoChanged_inForce reads v client.toClient ?_
  cases dropped : (proxySvUserinfoChanged E v client.toClient).dropped with
  | none => rfl
  | some reason =>
    rw [changed, dropped] at kept
    cases kept

theorem follows_setClient {own : CString → Netadr → Int} {live : Fin maxclients → Int → Prop}
    {server : Server maxclients} (follows : Follows own live server) {n : Fin maxclients} {client : SlotClient}
    (holds : client.human = true → client.dropped = false → ∃ svFps, (svFps = server.cvars.svFps ∨ live n svFps) ∧
      InForce own { server.cvars with svFps } client.toClient) :
    Follows own live (setClient server n client) := by
  refine ⟨follows.applied, fun i human kept => ?_⟩
  rw [setClient] at human kept ⊢
  dsimp only at human kept ⊢
  by_cases same : i = n
  · subst same
    rw [Function.update_self] at human kept ⊢
    exact holds human kept
  · rw [Function.update_of_ne same] at human kept ⊢
    exact follows.clients i human kept

theorem follows_userinfoChanged {E : Engine} {own : CString → Netadr → Int} (reads : Reads E own)
    {live : Fin maxclients → Int → Prop} {server : Server maxclients} (follows : Follows own live server)
    {n : Fin maxclients} {svFps : Int} (member : live n svFps) (client : SlotClient) :
    Follows own live (userinfoChanged E server svFps n client).2 :=
  follows_setClient follows fun _ kept => ⟨svFps, Or.inr member, changed_inForce reads _ kept⟩

/-- A client that goes on to another state keeps its values. -/
theorem follows_moved {own : CString → Netadr → Int} {live : Fin maxclients → Int → Prop} {server : Server maxclients}
    (follows : Follows own live server) {n : Fin maxclients} {state : ClientState}
    (was : connected (server.clients n).state = true) : Follows own live (setClient server n { server.clients n with state }) := by
  refine follows_setClient follows fun human kept => ?_
  refine follows.clients n ?_ kept
  rw [SlotClient.human, Bool.and_eq_true] at human ⊢
  exact ⟨was, human.2⟩

theorem follows_connectClient {E : Engine} {own : CString → Netadr → Int} (reads : Reads E own)
    {live : Fin maxclients → Int → Prop} {server : Server maxclients} (follows : Follows own live server)
    {n : Fin maxclients} {svFps : Int} (member : live n svFps) (client : Client) :
    Follows own live (connectClient E server svFps n client).2 := by
  refine follows_setClient (follows_userinfoChanged reads follows member ⟨client, .csFree, false⟩) fun _ kept => ?_
  rw [userinfoChanged] at kept ⊢
  dsimp only at kept ⊢
  rw [Function.update_self] at kept ⊢
  exact ⟨svFps, Or.inr member, changed_inForce reads _ kept⟩

theorem follows_written {own : CString → Netadr → Int} {live : Fin maxclients → Int → Prop} {server : Server maxclients}
    (follows : Follows own live server) {n : Fin maxclients} {userinfo : Infostring}
    (keeps : KeepsValues (server.clients n) userinfo) :
    Follows own live (setClient server n { server.clients n with userinfo }) := by
  refine follows_setClient follows fun human kept => ?_
  obtain ⟨svFps, read, holds⟩ := follows.clients n human kept
  refine ⟨svFps, read, ?_, ?_⟩
  · rw [keeps keyRate (by simp)]
    exact holds.rate
  · rw [keeps keySnaps (by simp)]
    exact holds.snapshots

/-- New settings reach every client. -/
theorem follows_settingsChanged {E : Engine} {own : CString → Netadr → Int} (reads : Reads E own)
    (live : Fin maxclients → Int → Prop) (server : Server maxclients) (applied : server.appliedRates = rates server.cvars) :
    Follows own live (settingsChanged E server server.cvars.svFps).2 := by
  refine ⟨applied, fun i human kept => ⟨server.cvars.svFps, Or.inl rfl, ?_⟩⟩
  rw [settingsChanged] at human kept ⊢
  dsimp only at human kept ⊢
  by_cases was : (server.clients i).human = true
  · rw [if_pos was] at kept ⊢
    exact changed_inForce reads _ kept
  · rw [if_neg was] at human
    exact absurd human was

theorem follows_updateAll {E : Engine} {own : CString → Netadr → Int} (reads : Reads E own)
    {live : Fin maxclients → Int → Prop} {server : Server maxclients} (follows : Follows own live server)
    (levelTime : Int) (now : Live) : Follows own live (updateAll E server levelTime now).2 := by
  rw [updateAll]
  split
  · dsimp only
    split
    · exact follows_settingsChanged reads live _ rfl
    · rename_i same
      have same : server.appliedRates = rates now.toCvars := not_not.mp same
      refine ⟨same, fun i human kept => ?_⟩
      obtain ⟨svFps, read, holds⟩ := follows.clients i human kept
      have fps : server.cvars.svFps = now.svFps := congrArg Rates.svFps (follows.applied.symm.trans same)
      exact ⟨svFps, read.imp (fun equal => equal.trans fps) id, holds.of_rates (follows.applied.symm.trans same)⟩
  · exact follows

theorem follows_step {E : Engine} {own : CString → Netadr → Int} (reads : Reads E own)
    {live : Fin maxclients → Int → Prop} {server : Server maxclients} (follows : Follows own live server)
    {event : Event maxclients} (listed : ∀ n svFps, event.fps n = some svFps → live n svFps) (keeps : Keeps server event) :
    Follows own live (step E server event).2 := by
  cases event with
  | runFrame levelTime now => exact follows_updateAll reads follows levelTime now
  | connect n client svFps => exact follows_connectClient reads follows (listed n svFps (if_pos rfl)) client
  | addBot n client =>
    refine follows_setClient follows fun human => ?_
    simp [SlotClient.human] at human
  | userinfo n userinfo svFps => exact follows_userinfoChanged reads follows (listed n svFps (if_pos rfl)) _
  | sanitize n env =>
    rw [step]
    dsimp only
    split
    · rename_i called
      exact follows_written follows (keepsValues_of_sanitize called)
    · exact follows
  | setUserinfo n userinfo => exact follows_written follows keeps
  | moves n state =>
    rw [step]
    dsimp only
    split
    · rename_i joined
      exact follows_moved follows joined
    · exact follows

/-- From the first update with new settings on, whatever happens, every human client that its last change did not drop has
the rate and the snapshot interval of the settings that were read last; only `sv_fps` can be the one that the engine had when
the userinfo of the client changed since. -/
theorem rates_follow_settings {E : Engine} {own : CString → Netadr → Int} (reads : Reads E own)
    (server : Server maxclients) (levelTime : Int) (live : Live) (events : List (Event maxclients))
    (due : server.due levelTime = true) (other : server.appliedRates ≠ rates live.toCvars)
    (keeps : ∀ before event after, events = before ++ event :: after →
      Keeps (final (step E) server (.runFrame levelTime live :: before)) event) :
    let reached := final (step E) server (.runFrame levelTime live :: events)
    ∀ n, (reached.clients n).human = true → (reached.clients n).dropped = false →
      ∃ svFps, (svFps = reached.cvars.svFps ∨ ∃ event ∈ events, event.fps n = some svFps) ∧
        InForce own { reached.cvars with svFps } (reached.clients n).toClient := by
  have first : Follows own (fun n svFps => ∃ event ∈ events, event.fps n = some svFps)
      (updateAll E server levelTime live).2 := by
    rw [updateAll, if_pos due]
    dsimp only
    rw [if_pos other]
    exact follows_settingsChanged reads _ _ rfl
  exact (final_keeps_at (step E) Keeps
    (Follows own fun n svFps => ∃ event ∈ events, event.fps n = some svFps)
    (fun event member server follows keeps =>
      follows_step reads follows (fun n svFps read => ⟨event, member, read⟩) keeps)
    _ keeps first).clients

/-- The rate that the engine gives a client which is not on its LAN. -/
def ownRate (value : CString) (_ : Netadr) : Int := if value = [] then 3000 else max 1000 (min 90000 (atoi value))

def retail : Engine where
  netAdrToString a := adrString a.ip a.port
  originalSvUserinfoChanged cl :=
    { cl with rate := ownRate (infoValueForKey cl.userinfo.text keyRate) cl.remoteAddress }

def player : Client := ⟨.copy "\\name\\Bob\\rate\\4000\\snaps\\40".toList, ⟨.naIp, ⟨10, 20, 30, 40⟩, 29070⟩, 0, 0⟩
def empty : Server 2 := .init (fun _ => ⟨player, .csFree, false⟩) ⟨64, 0, 0, 0, 20⟩

def renamed : Infostring := .copy "\\name\\Bob[1]\\rate\\4000\\snaps\\40".toList

/-- A floor that comes and goes while a client plays, whose name the game writes back. -/
def floorEvents : List (Event 2) :=
  [.connect 0 player 20, .setUserinfo 0 renamed, .moves 0 .csActive, .runFrame 2500 ⟨⟨64, 0, 0, 30, 40⟩, false⟩]

theorem retail_reads : Reads retail ownRate := ⟨fun _ => rfl, fun _ => rfl⟩

theorem keeps_floorEvents (before : List (Event 2)) (event : Event 2) (after : List (Event 2))
    (split : floorEvents = before ++ event :: after) :
    Keeps (final (step retail) empty (.runFrame 1000 ⟨⟨64, 25000, 0, 0, 20⟩, false⟩ :: before)) event := by
  rcases before with _ | ⟨first, _ | ⟨second, _ | ⟨third, _ | ⟨fourth, before⟩⟩⟩⟩
  all_goals simp only [floorEvents, List.nil_append, List.cons_append, List.cons.injEq] at split
  · obtain ⟨rfl, _⟩ := split
    trivial
  · obtain ⟨rfl, rfl, _⟩ := split
    change KeepsValues _ renamed
    rw [KeepsValues]
    decide +kernel
  · obtain ⟨_, _, rfl, _⟩ := split
    trivial
  · obtain ⟨_, _, _, rfl, _⟩ := split
    trivial
  · simp at split

theorem rates_follow_settings_sample :
    ((final (step retail) empty (.runFrame 1000 ⟨⟨64, 25000, 0, 0, 20⟩, false⟩ :: floorEvents)).clients 0).rate = 4000 := by
  obtain ⟨_, _, holds⟩ := rates_follow_settings retail_reads empty 1000 ⟨⟨64, 25000, 0, 0, 20⟩, false⟩ floorEvents
    (by decide) (by decide) keeps_floorEvents 0 (by decide +kernel) (by decide +kernel)
  have rate := holds.rate
  dsimp only at rate
  exact rate.trans (by decide +kernel)

end YbeProxy.RateSettings
