import YbeProxy.ConfigTable
import YbeProxy.NetStatusTable
import YbeProxy.PlayerRatio

/-!
# The commands of the module

The server commands and the commands of the console that the requests of a run come to, with the texts that `MyRatio`,
`PrintConfig`, `NetStatus` and `ExplainNetStatus` print. No server command is too long for `trap_SendServerCommand`, and
who gets a command reads the one that the proxy wrote.
-/

namespace YbeProxy.ModuleCommands
open YbeProxy.Strings YbeProxy.Infostrings YbeProxy.Userinfo YbeProxy.ClientCommands YbeProxy.VmMain YbeProxy.Runs
open YbeProxy.Sessions YbeProxy.ModuleTexts YbeProxy.CommandTexts YbeProxy.PlayerRatio YbeProxy.NetStatusTable
open YbeProxy.ModuleRuns (youAreMuted)
open YbeProxy.WhileLoop (Ends)
open YbeProxy.ConfigTable (printConfig printConfig_sound)
open YbeProxy.Connection (Slot slotZero)
open YbeProxy.Cmd (cmdTokenizeString2)

/-! ## What is sent -/

/-- What the functions that print a table read of the engine and the game. -/
structure World where
  playerState : Slot → PlayerState
  counted : ∀ n, (playerState n).Counted
  /-- What `Cvar_VariableStringBuffer` reads. -/
  cvars : CString → CString
  settings : Settings
  clients : List ClientStatus
  few : clients.length ≤ maxClients

def clientNumber : Option Slot → Int32
  | some n => Int32.ofNat n
  | none => -1

/-- The server commands that a request comes to. -/
def serverCommands (isOriginalEngine : Bool) (engine : Engine) (world : World) (fuel : Nat) :
    VmMain.Request → Option (List CString)
  | .sendServerCommand _ text => some [text]
  | .myRatio n => some [PlayerRatio.myRatio engine.svGametype (world.playerState n)]
  | .printConfig n => (printConfig world.cvars isOriginalEngine (clientNumber n) fuel).map (·.commands)
  | .netStatus _ => some (netStatus world.settings world.clients)
  | .explainNetStatus _ => some explainNetStatus
  | .print _ | .sendConsoleCommand _ _ | .dropClient _ _ | .setUserinfo _ _ => some []

/-! ## The ratio -/

theorem unquoted_hundredths (n : Nat) : Unquoted (hundredths n) := by
  have digits : Unquoted (Numerals.padded 2 10 (n % 100)) := by
    intro member
    obtain ⟨digit, small, same⟩ := Numerals.mem_padded (by decide) member
    have other : ∀ digit < 10, '"' ≠ Nat.digitChar digit := by decide
    exact other digit small same
  have dot : Unquoted ".".toList := by decide
  exact ((verb_decimal _).unquoted.append dot).append digits

theorem unquoted_fixed (ratio : PlayerRatio.Float) : Unquoted (fixed ratio) := by
  have literals : Unquoted "-".toList ∧ Unquoted "-inf".toList ∧ Unquoted "inf".toList := by decide
  cases ratio with
  | finite value =>
    rw [fixed]
    split
    · exact literals.1.append (unquoted_hundredths _)
    · exact unquoted_hundredths _
  | infinite negative =>
    cases negative with
    | true => exact literals.2.1
    | false => exact literals.2.2

theorem unquoted_ratioString (kill death : Int) : Unquoted (ratioString kill death) := by
  have marks : Unquoted "(^2+".toList ∧ Unquoted "(^1".toList ∧ Unquoted "^7)".toList := by decide
  have number := unquoted_decimalInt (kill - death)
  rw [ratioString]
  split
  · exact ((marks.1.append number).append marks.2.2).of_subset (List.take_subset _ _)
  · exact ((marks.2.1.append number).append marks.2.2).of_subset (List.take_subset _ _)

theorem myRatio_sound (svGametype : Int) {ps : PlayerState} (counted : ps.Counted) : Sound (PlayerRatio.myRatio svGametype ps) := by
  have fits : (PlayerRatio.myRatio svGametype ps).length ≤ maxServerCommand := myRatio_fits svGametype counted
  refine ⟨fits, ?_⟩
  rw [PlayerRatio.myRatio] at fits ⊢
  split
  · exact tells_of_quoted "print".toList "Command not supported for this gametype\n".toList (by decide) (by decide) (by decide)
      (by decide)
  · rename_i supported
    rw [if_neg supported] at fits
    have front : "print \"Kills^4: ^7".toList = "print".toList ++ ' ' :: '"' :: "Kills^4: ^7".toList := by decide
    have behind : "\n\"".toList = "\n".toList ++ ['"'] := by decide
    let parts := ["Kills^4: ^7".toList, decimalInt ps.score, " ^4| ^7Deaths^4: ^7".toList, decimalInt ps.killed,
      " ^4(^7Suicides^4: ^7".toList, decimalInt ps.suicides, "^4) ^4| ^7Ratio^4: ^7".toList,
      fixed (calcRatio ps.score ps.killed), " ".toList, ratioString ps.score ps.killed, "\n".toList]
    refine tells_of_quoted "print".toList parts.flatten (by decide) ?_ (unquoted_flatten ?_) fits
    · rw [front, behind]
      simp only [parts, List.flatten_cons, List.flatten_nil, List.append_assoc, List.cons_append, List.nil_append]
    · have words : ∀ text ∈ ["Kills^4: ^7", " ^4| ^7Deaths^4: ^7", " ^4(^7Suicides^4: ^7", "^4) ^4| ^7Ratio^4: ^7", " ", "\n"],
          Unquoted text.toList := by decide
      simp only [List.forall_mem_cons, List.not_mem_nil, false_implies, implies_true, and_true] at words
      obtain ⟨kills, deaths, suicides, ratio, space, behind⟩ := words
      simp only [parts, List.forall_mem_cons, List.not_mem_nil, false_implies, implies_true, and_true]
      exact ⟨kills, unquoted_decimalInt _, deaths, unquoted_decimalInt _, suicides, unquoted_decimalInt _, ratio,
        unquoted_fixed _, space, unquoted_ratioString _ _, behind⟩

/-! ## Requests -/

/-- A request comes to server commands: one that it has itself, or sound ones. -/
theorem serverCommands_end (isOriginalEngine : Bool) (engine : Engine) (world : World) (request : VmMain.Request) :
    ∃ commands, Ends (serverCommands isOriginalEngine engine world · request) commands ∧
      ∀ command ∈ commands, Sound command ∨ ∃ clientNum, request = .sendServerCommand clientNum command := by
  cases request with
  | sendServerCommand clientNum text => exact ⟨[text], .pure _, List.forall_mem_singleton.mpr (.inr ⟨clientNum, rfl⟩)⟩
  | myRatio n => exact ⟨_, .pure _, List.forall_mem_singleton.mpr (.inl (myRatio_sound _ (world.counted n)))⟩
  | printConfig n =>
    obtain ⟨output, ends, sound⟩ := printConfig_sound world.cvars isOriginalEngine (clientNumber n)
    exact ⟨_, ends.map (·.commands), fun command member => .inl (sound command member)⟩
  | netStatus n => exact ⟨_, .pure _, fun command member => .inl (netStatus_sound world.settings world.few command member)⟩
  | explainNetStatus n => exact ⟨_, .pure _, fun command member => .inl (explainNetStatus_sound command member)⟩
  | print text => exact ⟨[], .pure _, List.forall_mem_nil _⟩
  | sendConsoleCommand exec text => exact ⟨[], .pure _, List.forall_mem_nil _⟩
  | dropClient clientNum reason => exact ⟨[], .pure _, List.forall_mem_nil _⟩
  | setUserinfo clientNum userinfo => exact ⟨[], .pure _, List.forall_mem_nil _⟩

/-- The text of a request fits in the buffer of the engine that takes it. -/
def Fits : VmMain.Request → Prop
  | .sendServerCommand _ text => text.length ≤ maxServerCommand
  | .dropClient _ reason => reason.length < maxStringChars
  | .setUserinfo _ userinfo => userinfo.length < maxInfoString
  | _ => True

/-- Who gets the text of a request reads its command, and no quote is in the reason of a drop. -/
def Reads (engine : Engine) : VmMain.Request → Prop
  | .sendServerCommand _ text => Tells text
  | .sendConsoleCommand _ text => Orders engine text
  | .dropClient _ reason => Unquoted reason
  | _ => True

theorem fits_said {typed : Prop} {engine : Engine} {request : VmMain.Request} (said : Said ShortName typed engine request) :
    Fits request := by
  cases said with
  | printed request prints =>
    cases request with
    | sendServerCommand clientNum text => cases prints
    | dropClient clientNum reason => cases prints
    | setUserinfo clientNum userinfo => cases prints
    | _ => trivial
  | welcomed clientNum =>
    have short : welcome.length ≤ maxServerCommand := by decide
    exact short
  | cheater clientNum name allowed => exact length_cheaterText allowed
  | mutedChat clientNum =>
    have short : youAreMuted.length ≤ maxServerCommand := by decide
    exact short
  | noClient isTyped clientNum n short => exact length_noClientText short
  | muting clientNum mute =>
    have short : ∀ mute : Bool, (if mute then mutedText else unmutedText).length ≤ maxServerCommand := by decide
    exact short mute
  | kickCanceled clientNum =>
    have short : VmMain.kickCanceled.length ≤ maxServerCommand := by decide
    exact short
  | dropped clientNum reason refuses =>
    have short := length_reason refuses
    have size : maxStringChars = 1024 := rfl
    rw [Fits]
    omega
  | userinfo clientNum userinfo => exact userinfo.fits
  | forceTeam isTyped n whole => trivial
  | mapLoad killserver => trivial

theorem reads_said {typed : Prop} {engine : Engine} (tokenized : Tokenized typed engine) {request : VmMain.Request}
    (said : Said GoodName typed engine request) : Reads engine request := by
  cases said with
  | printed request prints =>
    cases request with
    | sendServerCommand clientNum text => cases prints
    | sendConsoleCommand exec text => cases prints
    | dropClient clientNum reason => cases prints
    | _ => trivial
  | welcomed clientNum =>
    exact tells_of_quoted "print".toList "^5YbeProxy (^71.0.0^5) by Yberion^7\n".toList (by decide) (by decide) (by decide)
      (by decide)
  | cheater clientNum name allowed => exact tells_cheaterText allowed
  | mutedChat clientNum =>
    exact tells_of_quoted "print".toList "You are muted.\n".toList (by decide) (by decide) (by decide) (by decide)
  | noClient isTyped clientNum n short => exact tells_noClientText (tokenized.unquoted_arg isTyped n _) short
  | muting clientNum mute =>
    cases mute with
    | true =>
      exact tells_of_quoted "print".toList "You have been muted.\n".toList (by decide) (by decide) (by decide) (by decide)
    | false =>
      exact tells_of_quoted "print".toList "You are no longer muted.\n".toList (by decide) (by decide) (by decide) (by decide)
  | kickCanceled clientNum =>
    exact tells_of_quoted "print".toList "Vote kick canceled: the player left the server.\n".toList (by decide) (by decide)
      (by decide) (by decide)
  | dropped clientNum reason refuses => exact unquoted_reason refuses
  | userinfo clientNum userinfo => trivial
  | forceTeam isTyped n whole => exact orders_forceTeamText n whole
  | mapLoad killserver => exact orders_mapText tokenized.mapname killserver

/-! ## Whole runs -/

/-- At any time of a run, what the proxy asks of the engine fits: no server command of its own is dropped. -/
theorem requests_fit (isOriginalEngine : Bool) (bans : BanFile.Server) (events : List Event) (world : World) :
    ∀ entry ∈ trace step (.init isOriginalEngine bans) events, ∀ request ∈ entry.2.requests, Fits request ∧
      ∃ commands, Ends (serverCommands isOriginalEngine (engineOf entry.1) world · request) commands ∧
        ∀ command ∈ commands, command.length ≤ maxServerCommand := by
  intro entry member request asked
  have fits := fits_said (said_run_requests (Nat.zero_lt_succ _) isOriginalEngine bans
    (fun event _ => writes_short (engineOf event)) member request asked)
  obtain ⟨commands, ends, sound⟩ := serverCommands_end isOriginalEngine (engineOf entry.1) world request
  refine ⟨fits, commands, ends, fun command listed => ?_⟩
  rcases sound command listed with known | ⟨clientNum, rfl⟩
  · exact known.fits
  · exact fits

theorem counted_sample : (⟨7, 2, 1⟩ : PlayerState).Counted := ⟨by decide, by decide, by decide⟩

def sampleWorld : World :=
  ⟨fun _ => ⟨7, 2, 1⟩, fun _ => counted_sample, fun _ => [], ⟨40, 0⟩, [padawan], Nat.le_add_left 1 31⟩

/-- `/myratio` -/
def asking : Engine := sampleEngine ["myratio".toList] (.copy [])

/-- A player joins and asks for the ratio. -/
def askingEvents : List Event :=
  [.enter (.clientConnect slotZero true false) ModuleRuns.joining, .leave false ModuleRuns.joining,
    .enter (.clientBegin slotZero) quiet, .leave false quiet, .enter (.runFrame 1000) quiet, .leave false quiet,
    .enter (.clientCommand slotZero) asking]

theorem requests_fit_sample :
    Fits (.myRatio slotZero) ∧ ∃ commands, Ends (serverCommands true asking sampleWorld · (.myRatio slotZero)) commands ∧
      ∀ command ∈ commands, command.length ≤ maxServerCommand :=
  requests_fit true noBans askingEvents sampleWorld ((trace step (.init true noBans) askingEvents).get ⟨6, by decide +kernel⟩)
    (List.get_mem ..) (.myRatio slotZero) (by decide +kernel)

/-- In any run with texts that were tokenized, no text of a client or of the console leaves the place the proxy puts it in. -/
theorem requests_read (isOriginalEngine : Bool) (bans : BanFile.Server) (events : List Event) (world : World)
    (tokenized : ∀ event ∈ events, Tokenized (typing event = true) (engineOf event)) :
    ∀ entry ∈ trace step (.init isOriginalEngine bans) events, ∀ request ∈ entry.2.requests, Reads (engineOf entry.1) request ∧
      ∃ commands, Ends (serverCommands isOriginalEngine (engineOf entry.1) world · request) commands ∧
        ∀ command ∈ commands, Tells command := by
  intro entry member request asked
  have writes : ∀ event ∈ events, Writes GoodName (engineOf event) := fun event listed =>
    writes_good (tokenized event listed)
  obtain ⟨before, after, split, _⟩ := mem_trace step member
  have listed : entry.1 ∈ events := by
    rw [split]
    exact List.mem_append_right _ List.mem_cons_self
  have reads := reads_said (tokenized entry.1 listed)
    (said_run_requests ⟨Nat.zero_lt_succ _, List.not_mem_nil⟩ isOriginalEngine bans writes member request asked)
  obtain ⟨commands, ends, sound⟩ := serverCommands_end isOriginalEngine (engineOf entry.1) world request
  refine ⟨reads, commands, ends, fun command listed => ?_⟩
  rcases sound command listed with known | ⟨clientNum, rfl⟩
  · exact known.tells
  · exact reads

/-- `forceteam -1 "red //x"` on the console. -/
def forcing : Engine := sampleEngine (cmdTokenizeString2 "forceteam -1 \"red //x\"".toList false) (.copy [])

/-- The server time is about to wrap. -/
def wrapping : Engine := { quiet with svs := ⟨0x70000000 - 50000, 0, 2048⟩ }

def forcingEvents : List Event :=
  [.enter (.clientBegin slotZero) quiet, .leave false quiet, .enter .consoleCommand forcing, .enter (.runFrame 1000) wrapping]

theorem mapName_sample : MapName "mp/ffa1".toList := ⟨⟨⟨by decide, by decide, by decide⟩, by decide, by decide⟩, by decide⟩

theorem tokenized_forcing : ∀ event ∈ forcingEvents, Tokenized (typing event = true) (engineOf event) := by
  have silent {event : Event} (untyped : typing event = false) (bare : (engineOf event).userinfo = quiet.userinfo)
      (named : (engineOf event).mapname = quiet.mapname) : Tokenized (typing event = true) (engineOf event) := by
    refine ⟨fun typed => ?_, fun n => ?_, ?_⟩
    · rw [untyped] at typed
      cases typed
    · rw [bare]
      exact List.not_mem_nil
    · rw [named]
      exact mapName_sample
  exact List.forall_mem_cons.mpr ⟨silent rfl rfl rfl, List.forall_mem_cons.mpr ⟨silent rfl rfl rfl,
    List.forall_mem_cons.mpr ⟨⟨fun _ => ⟨_, rfl⟩, fun _ => List.not_mem_nil, mapName_sample⟩,
      List.forall_mem_singleton.mpr (silent rfl rfl rfl)⟩⟩⟩

theorem requests_read_sample :
    Reads forcing (.sendConsoleCommand execAppend "forceteam 0 \"red //x\"\n".toList) ∧
      Reads wrapping (.sendConsoleCommand execAppend "killserver\nmap mp/ffa1\n".toList) :=
  ⟨(requests_read true noBans forcingEvents sampleWorld tokenized_forcing
      ((trace step (.init true noBans) forcingEvents).get ⟨2, by decide +kernel⟩) (List.get_mem ..) _ (by decide +kernel)).1,
    (requests_read true noBans forcingEvents sampleWorld tokenized_forcing
      ((trace step (.init true noBans) forcingEvents).get ⟨3, by decide +kernel⟩) (List.get_mem ..) _ (by decide +kernel)).1⟩

end YbeProxy.ModuleCommands
