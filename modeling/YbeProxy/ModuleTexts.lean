import YbeProxy.ModuleRuns

/-!
# The texts of the module

What the proxy writes into the texts it gives to the engine: its own words, the reasons of a refusal, and the names of the
clients, which fit in their buffers at any time of a run. `trap_SendServerCommand` of `Module/EngineApi.cpp` drops a server
command of more than 1022 characters.
-/

namespace YbeProxy.ModuleTexts
open YbeProxy.Strings YbeProxy.Infostrings YbeProxy.Userinfo YbeProxy.ClientCommands YbeProxy.Connection
open YbeProxy.VmMain YbeProxy.Runs YbeProxy.Sessions YbeProxy.ModuleRuns

/-! ## Reasons -/

def lengthExceeded : CString := "Userinfo string length exceeded.".toList
def cheating : CString := "(Anti-Cheat system) you got kicked cause of cheating".toList

/-- Why a userinfo is refused. -/
def Reason (reason : CString) : Prop :=
  reason = lengthExceeded ∨ reason = cheating ∨
    ∃ userinfo invalid, validate userinfo = some invalid ∧ reason = validationReason invalid

theorem reason_put {userinfo : Infostring} {key value : CString} {refusal : Refusal}
    (failed : put userinfo key value = .error refusal) : refusal.reason = lengthExceeded := by
  rw [put] at failed
  split at failed
  · cases failed
  · obtain rfl := Except.error.inj failed
    rfl

theorem reason_fixModel {env : Environment} {userinfo : Infostring} {refusal : Refusal}
    (failed : fixModel env userinfo = .error refusal) : refusal.reason = lengthExceeded ∨ refusal.reason = cheating := by
  simp only [fixModel] at failed
  split at failed
  · obtain rfl := Except.error.inj failed
    exact Or.inr rfl
  · split at failed
    · exact Or.inl (reason_put failed)
    · cases failed

theorem reason_fixColor {colorKey : CString} {userinfo : Infostring} {refusal : Refusal}
    (failed : fixColor colorKey userinfo = .error refusal) : refusal.reason = lengthExceeded := by
  simp only [fixColor] at failed
  split at failed
  · exact reason_put failed
  · cases failed

theorem reason_sanitizeText {env : Environment} {clientNum : Nat} {userinfo : Infostring} {refusal : Refusal}
    (failed : sanitizeText env clientNum userinfo = .error refusal) :
    refusal.reason = lengthExceeded ∨ refusal.reason = cheating := by
  simp only [sanitizeText, bind, Except.bind] at failed
  split at failed
  · rename_i name
    obtain rfl := Except.error.inj failed
    exact Or.inl (reason_put name)
  split at failed
  · rename_i model
    obtain rfl := Except.error.inj failed
    exact reason_fixModel model
  split at failed
  · rename_i color1
    obtain rfl := Except.error.inj failed
    exact Or.inl (reason_fixColor color1)
  split at failed
  · rename_i color2
    obtain rfl := Except.error.inj failed
    exact Or.inl (reason_fixColor color2)
  · exact Or.inl (reason_put failed)

theorem reason_sanitize {env : Environment} {clientNum : Nat} {validated : Bool} {userinfo : Infostring} {refusal : Refusal}
    (refused : (sanitize env clientNum validated userinfo).refusal = some refusal) : Reason refusal.reason := by
  rw [sanitize] at refused
  split at refused
  · rename_i invalid found
    obtain rfl := Option.some.inj refused
    split at found
    · exact Or.inr (Or.inr ⟨_, _, found, rfl⟩)
    · cases found
  · split at refused
    · cases refused
    · dsimp only at refused
      split at refused
      · cases refused
      · rename_i failed
        obtain rfl := Option.some.inj refused
        rcases reason_sanitizeText failed with long | cheat
        · exact Or.inl long
        · exact Or.inr (Or.inl cheat)

theorem length_reason {reason : CString} (refuses : Reason reason) : reason.length ≤ 95 := by
  rcases refuses with rfl | rfl | ⟨userinfo, invalid, found, rfl⟩
  · decide
  · decide
  · exact List.length_take_le _ _

/-! ## Names -/

/-- Every name the proxy holds is such a text. -/
def Named (Allowed : CString → Prop) (proxy : Proxy) : Prop := ∀ n, Allowed (proxy.clientData n).cleanName

def engineOf : Event → Engine
  | .enter _ engine => engine
  | .syscall _ engine => engine
  | .leave _ engine => engine

/-- The names that sanitizing takes from the userinfos are such texts. -/
def Writes (Allowed : CString → Prop) (engine : Engine) : Prop :=
  ∀ (k : Slot) validated name,
    (sanitize engine.environment k validated (engine.userinfo k)).cleanName = some name → Allowed name

section Names

variable {Allowed : CString → Prop} {engine : Engine} {proxy : Proxy}

theorem named_withName (named : Named Allowed proxy) (k : Slot) {name : Option CString}
    (fits : ∀ text, name = some text → Allowed text) :
    Named Allowed (proxy.withConnection (withName proxy.connection k name)) := by
  intro n
  cases name with
  | none => exact named n
  | some text =>
    simp only [withConnection_clientData, withName, Function.update_apply]
    split
    · exact fits text rfl
    · exact named n

theorem named_setClient (named : Named Allowed proxy) {k : Slot} {data : VmMain.ClientData}
    (kept : Allowed data.cleanName) : Named Allowed (proxy.setClient k data) := by
  intro n
  rw [setClient_clientData]
  split
  · exact kept
  · exact named n

theorem named_clientConnect (writes : Writes Allowed engine) (named : Named Allowed proxy) (k : Slot)
    (firstTime isBot : Bool) : Named Allowed (VmMain.clientConnect engine proxy k firstTime isBot).2 := by
  obtain ⟨name, written, connected⟩ := clientConnect_cases engine.proxySvMaxClientsPerIP
    ⟨proxy.bans.bans, engine.environment⟩ proxy.connection k firstTime isBot (engine.userinfo k)
  have fits (text : CString) (same : name = some text) : Allowed text := by
    rcases written with nothing | sanitized
    · exact absurd (same.symm.trans nothing) (by simp)
    · exact writes k true text (sanitized.symm.trans same)
  have kept := named_withName named k fits
  rcases connected with ⟨accepted, data⟩ | ⟨reason, refused, data⟩
  · simp only [VmMain.clientConnect, accepted, data]
    intro n
    simp only [withConnection_clientData, withWelcome, Function.update_apply]
    split
    · rename_i same
      subst same
      exact kept _
    · exact kept n
  · simp only [VmMain.clientConnect, refused, data]
    exact kept

theorem named_clientUserinfoChanged (writes : Writes Allowed engine) (named : Named Allowed proxy) (k : Slot) :
    Named Allowed (clientUserinfoChanged engine proxy k).2 := by
  simp only [clientUserinfoChanged]
  split <;> exact named_withName named k (writes k _)

theorem named_clientCommand (engine : Engine) (named : Named Allowed proxy) (k : Slot) :
    Named Allowed (clientCommand engine proxy k).2 := by
  rcases clientCommand_cases engine proxy k with ⟨_, times⟩ | ⟨_, forwarded⟩
  · obtain ⟨data, same, kept, _⟩ := times
    rw [same]
    refine named_setClient named ?_
    rw [congrArg Connection.ClientData.cleanName kept]
    exact named k
  · rw [forwarded]
    exact named

theorem named_consoleCommand (engine : Engine) (named : Named Allowed proxy) :
    Named Allowed (consoleCommand engine proxy).2.2 := by
  intro n
  rcases consoleCommand_cases engine proxy with ⟨k, _, mute, _, muted⟩ | ⟨_, kept⟩
  · rw [muted, setMuted_clientData]
    split <;> exact named n
  · rw [kept]
    exact named n

theorem named_clientConnected (engine : Engine) (named : Named Allowed proxy) (k : Slot) (isBot : Bool) :
    Named Allowed (clientConnected engine proxy k isBot) := by
  intro n
  simp only [clientConnected, withConnection_clientData, connected]
  split
  · exact named n
  · rw [Function.update_apply]
    split
    · rename_i same
      subst same
      exact named _
    · exact named n

theorem named_step (nothing : Allowed []) {module : Module} (named : Named Allowed module.proxy) (event : Event)
    (writes : Writes Allowed (engineOf event)) : Named Allowed (step module event).2.proxy := by
  cases event with
  | enter call engine =>
    cases call with
    | clientConnect k firstTime isBot => exact named_clientConnect writes named k firstTime isBot
    | clientDisconnect k => exact named_setClient named nothing
    | clientBegin k => exact named_setClient named (named k)
    | clientCommand k => exact named_clientCommand engine named k
    | consoleCommand => exact named_consoleCommand engine named
    | clientUserinfoChanged k => exact named_clientUserinfoChanged writes named k
    | runFrame levelTime => exact named
    | other => exact named
  | syscall call engine =>
    cases call with
    | setConfigstring num string =>
      change Named Allowed (configstringSet module.proxy num string)
      rw [configstringSet]
      split <;> exact named
    | argv n bufferLength => exact named
    | sendServerCommand clientNum text => exact named
    | sendConsoleCommand exec text => exact named
    | other => exact named
  | leave refused engine =>
    rw [step.eq_def]
    cases module.calls with
    | nil => exact named
    | cons call calls =>
      cases call with
      | clientConnect k firstTime isBot =>
        change Named Allowed (if refused = true then module.proxy else clientConnected engine module.proxy k isBot)
        split
        · exact named
        · exact named_clientConnected engine named k isBot
      | clientCommand k => exact named
      | runFrame levelTime => exact named
      | clientDisconnect k => exact named
      | clientBegin k => exact named
      | consoleCommand => exact named
      | clientUserinfoChanged k => exact named
      | other => exact named

/-- The names of a run are such texts, if those it writes are. -/
theorem named_final (nothing : Allowed []) (isOriginalEngine : Bool) (bans : BanFile.Server) (events : List Event)
    (writes : ∀ event ∈ events, Writes Allowed (engineOf event)) :
    Named Allowed (final step (.init isOriginalEngine bans) events).proxy :=
  final_keeps step (fun module => Named Allowed module.proxy)
    (fun event member _ holds => named_step nothing holds event (writes event member)) _ (fun _ => nothing)

end Names

/-- The name fits in its buffer. -/
def ShortName (name : CString) : Prop := name.length < maxNetname

theorem writes_short (engine : Engine) : Writes ShortName engine := by
  intro k validated name written
  rw [sanitize] at written
  split at written
  · cases written
  · split at written
    · cases written
    · dsimp only at written
      split at written
      all_goals
        obtain rfl := Option.some.inj written
        exact Nat.lt_succ_of_le (length_cleanName ..)

/-! ## Requests -/

def cheaterText (name : CString) : CString :=
  "chat \"^3(Anti-Cheat system) ^7".toList ++ name ++ "^3 got kicked cause of cheating^7\"".toList

def noClientText (arg : CString) : CString :=
  "print \"there is no client named '".toList ++ arg ++ "' currently on the server.\n\"".toList

def forceTeamText (n : Slot) (team : CString) : CString :=
  "forceteam ".toList ++ decimal n ++ " \"".toList ++ team ++ "\"\n".toList

/-- The command of `BeforeWrap`. -/
def mapText (killserver : Bool) (mapname : CString) : CString :=
  (if killserver then "killserver\n".toList else []) ++ "map ".toList ++ mapname ++ "\n".toList

/-- What prints on the console, or a text that the request does not hold. -/
def Printed : VmMain.Request → Prop
  | .sendServerCommand _ _ => False
  | .sendConsoleCommand _ _ => False
  | .dropClient _ _ => False
  | .setUserinfo _ _ => False
  | _ => True

/-- The engine has tokenized a line for this event. -/
def typing : Event → Bool
  | .enter (.clientCommand _) _ => true
  | .enter .consoleCommand _ => true
  | _ => false

/-- What the proxy asks of the engine: with such names in it, and with arguments where there are any. -/
inductive Said (Allowed : CString → Prop) (typed : Prop) (engine : Engine) : VmMain.Request → Prop
  | printed (request : VmMain.Request) (prints : Printed request) : Said Allowed typed engine request
  | welcomed (clientNum : Int) : Said Allowed typed engine (.sendServerCommand clientNum welcome)
  | cheater (clientNum : Int) (name : CString) (allowed : Allowed name) :
      Said Allowed typed engine (.sendServerCommand clientNum (cheaterText name))
  | mutedChat (clientNum : Int) : Said Allowed typed engine (.sendServerCommand clientNum youAreMuted)
  | noClient (isTyped : typed) (clientNum : Int) (n : Nat) (short : (argv engine.argv n maxTokenChars).length < maxCvarValueString) :
      Said Allowed typed engine (.sendServerCommand clientNum (noClientText (argv engine.argv n maxTokenChars)))
  | muting (clientNum : Int) (mute : Bool) :
      Said Allowed typed engine (.sendServerCommand clientNum (if mute then mutedText else unmutedText))
  | kickCanceled (clientNum : Int) : Said Allowed typed engine (.sendServerCommand clientNum VmMain.kickCanceled)
  | dropped (clientNum : Int) (reason : CString) (refuses : Reason reason) :
      Said Allowed typed engine (.dropClient clientNum reason)
  | userinfo (clientNum : Slot) (userinfo : Infostring) : Said Allowed typed engine (.setUserinfo clientNum userinfo.text)
  | forceTeam (isTyped : typed) (n : Slot) (whole : breaksCommand (argv engine.argv 2 maxTokenChars) = false) :
      Said Allowed typed engine (.sendConsoleCommand execAppend (forceTeamText n (argv engine.argv 2 maxTokenChars)))
  | mapLoad (killserver : Bool) :
      Said Allowed typed engine
        (.sendConsoleCommand execAppend (mapText killserver (qStrncpyz engine.mapname Restart.maxQPath)))

section Said

variable {Allowed : CString → Prop} {typed : Prop} {engine : Engine} {proxy : Proxy}

theorem said_refusedVote (isTyped : typed) {clientNum : Int} {n m : Nat} {sent : List ClientCommands.Request}
    (refused : refusedVote engine.server clientNum (argv engine.argv n maxTokenChars) (argv engine.argv m maxTokenChars) =
      some sent) : ∀ request ∈ sent, Said Allowed typed engine (.ofCommand request) := by
  rw [refusedVote] at refused
  split at refused
  · obtain rfl := Option.some.inj refused
    simp
  · rename_i short
    split at refused
    · obtain rfl := Option.some.inj refused
      intro request member
      obtain rfl := List.mem_singleton.mp member
      exact .noClient isTyped clientNum m (Nat.lt_of_not_ge short)
    · split at refused
      · obtain rfl := Option.some.inj refused
        simp
      · cases refused

theorem said_allowed (isTyped : typed) {client : ClientCommands.Client} (clientNum : Int) (cmd : CString)
    (named : Allowed client.cleanName) :
    ∀ request ∈ (allowed engine.server client clientNum engine.argv cmd).2, Said Allowed typed engine (.ofCommand request) := by
  have nothing : ∀ request ∈ ([] : List ClientCommands.Request), Said Allowed typed engine (.ofCommand request) := by simp
  simp only [allowed]
  split
  · intro request member
    rcases List.mem_cons.mp member with rfl | rest
    · exact .cheater (-1) client.cleanName named
    · obtain rfl := List.mem_singleton.mp rest
      exact .dropped clientNum _ (.inr (.inl rfl))
  split
  · intro request member
    obtain rfl := List.mem_singleton.mp member
    exact .mutedChat clientNum
  split
  · exact nothing
  split
  · exact nothing
  split
  · exact nothing
  split
  · rename_i sent refused
    split at refused
    · exact said_refusedVote isTyped refused
    · cases refused
  split
  · exact nothing
  split <;> exact nothing

theorem said_run {after : Proxy} {k : Slot} {cmd : CString} {requests : List VmMain.Request}
    (ran : run proxy k cmd = some (requests, after)) : ∀ request ∈ requests, Said Allowed typed engine request := by
  have ratio : Said Allowed typed engine (.myRatio k) := .printed _ trivial
  have config : Said Allowed typed engine (.printConfig (some k)) := .printed _ trivial
  simp only [run, myRatio, proxyconfig] at ran
  split at ran
  · split at ran <;> (obtain rfl := congrArg Prod.fst (Option.some.inj ran); simp [ratio])
  · split at ran
    · split at ran <;> (obtain rfl := congrArg Prod.fst (Option.some.inj ran); simp [config])
    · cases ran

theorem said_status (k : Slot) {request : VmMain.Request} (said : Said Allowed typed engine request) :
    ∀ other ∈ (status engine proxy k request).1, Said Allowed typed engine other := by
  simp only [status]
  split
  · simp
  · simpa using said

theorem said_netStatusRun {after : Proxy} {k : Slot} {cmd : CString} {requests : List VmMain.Request}
    (ran : netStatusRun engine proxy k cmd = some (requests, after)) :
    ∀ request ∈ requests, Said Allowed typed engine request := by
  simp only [netStatusRun] at ran
  split at ran
  · cases ran
  · split at ran
    · obtain rfl := congrArg Prod.fst (Option.some.inj ran)
      exact said_status k (.printed _ trivial)
    · split at ran
      · obtain rfl := congrArg Prod.fst (Option.some.inj ran)
        exact said_status k (.printed _ trivial)
      · cases ran

theorem said_clientCommand (isTyped : typed) (named : Named Allowed proxy) (k : Slot) :
    ∀ request ∈ (clientCommand engine proxy k).1.requests, Said Allowed typed engine request := by
  simp only [clientCommand]
  split
  · simp
  · split
    · intro request member
      obtain ⟨sent, listed, rfl⟩ := List.mem_map.mp member
      exact @said_allowed Allowed typed engine isTyped ⟨_, _⟩ _ _ (named k) sent listed
    · split
      · rename_i ran
        rcases Option.or_eq_some_iff.mp ran with first | ⟨_, second⟩
        · exact said_run first
        · exact said_netStatusRun second
      · simp

theorem said_clientConnect (k : Slot) (firstTime isBot : Bool) :
    ∀ request ∈ (VmMain.clientConnect engine proxy k firstTime isBot).1.requests, Said Allowed typed engine request := by
  simp only [VmMain.clientConnect]
  split
  · simp
  · split
    · simp
    · simpa using Said.userinfo k _

theorem said_clientUserinfoChanged (writes : Writes Allowed engine) (named : Named Allowed proxy) (k : Slot) :
    ∀ request ∈ (clientUserinfoChanged engine proxy k).1.requests, Said Allowed typed engine request := by
  have renamed := named_clientUserinfoChanged writes named k
  simp only [clientUserinfoChanged] at renamed ⊢
  split
  · rename_i refusal refused
    rw [refused] at renamed
    intro request member
    rcases List.mem_append.mp member with told | dropped
    · split at told
      · obtain rfl := List.mem_singleton.mp told
        exact .cheater (-1) _ (renamed k)
      · simp at told
    · obtain rfl := List.mem_singleton.mp dropped
      exact .dropped k _ (reason_sanitize refused)
  · split
    · simp
    · simpa using Said.userinfo k _

theorem said_consoleCommand (isTyped : typed) : ∀ request ∈ (consoleCommand engine proxy).2.1, Said Allowed typed engine request := by
  have printed (text : CString) : Said Allowed typed engine (.print text) := .printed _ trivial
  have config : Said Allowed typed engine (.printConfig none) := .printed _ trivial
  have command (cmd : CString) (mute : Bool) : ∀ request ∈ (muteCommand engine proxy cmd mute).1,
      Said Allowed typed engine request := by
    rw [muteCommand]
    split
    · exact List.forall_mem_singleton.mpr (printed _)
    · exact List.forall_mem_cons.mpr ⟨printed _, List.forall_mem_singleton.mpr (.muting _ mute)⟩
  have teams : ∀ request ∈ forceTeamEveryone engine proxy (argv engine.argv 2 maxTokenChars), Said Allowed typed engine request := by
    rw [forceTeamEveryone]
    split
    · exact List.forall_mem_singleton.mpr (printed _)
    · rename_i whole
      simp only [Bool.or_eq_true, not_or, Bool.not_eq_true] at whole
      intro request member
      obtain ⟨n, listed, rfl⟩ := List.mem_map.mp member
      obtain ⟨slot, _, same⟩ := List.mem_flatMap.mp listed
      obtain rfl := List.mem_singleton.mp same
      exact .forceTeam isTyped slot whole.2
  simp only [consoleCommand]
  split
  · simp
  split
  · simp [config]
  split
  · split
    · simp
    · exact teams
  split
  · exact command _ true
  split
  · exact command _ false
  · simp

theorem said_beforeWrap (svs : Restart.Svs) (requested : Bool) :
    ∀ call ∈ (Restart.beforeWrap svs engine.mapname requested).1, Said Allowed typed engine (.ofRestart call) := by
  simp only [Restart.beforeWrap]
  split
  · simp
  split
  · simp
  · refine List.forall_mem_cons.mpr ⟨.printed _ trivial, List.forall_mem_singleton.mpr ?_⟩
    exact .mapLoad (Restart.timeWraps svs)

theorem said_runFrame (levelTime : Int) :
    ∀ request ∈ (runFrame engine proxy levelTime).1, Said Allowed typed engine request := by
  intro request member
  obtain ⟨call, listed, rfl⟩ := List.mem_map.mp member
  split at listed
  · exact said_beforeWrap engine.svs proxy.restartRequested call listed
  · cases listed

theorem said_step {module : Module} (named : Named Allowed module.proxy) (event : Event)
    (writes : Writes Allowed (engineOf event)) :
    ∀ request ∈ (step module event).1.requests, Said Allowed (typing event = true) (engineOf event) request := by
  have nothing (typed : Prop) (engine : Engine) : ∀ request ∈ ([] : List VmMain.Request), Said Allowed typed engine request := by
    simp
  cases event with
  | enter call engine =>
    cases call with
    | clientConnect k firstTime isBot => exact said_clientConnect k firstTime isBot
    | clientBegin k =>
      change ∀ request ∈ (VmMain.clientBegin engine module.proxy k).1, Said Allowed _ engine request
      rw [VmMain.clientBegin]
      split
      · simpa using Said.welcomed _
      · exact nothing _ engine
    | clientCommand k => exact said_clientCommand rfl named k
    | consoleCommand => exact said_consoleCommand rfl
    | clientUserinfoChanged k => exact said_clientUserinfoChanged writes named k
    | clientDisconnect k => exact nothing _ engine
    | runFrame levelTime => exact said_runFrame levelTime
    | other => exact nothing _ engine
  | syscall call engine =>
    cases call with
    | sendConsoleCommand exec text =>
      simp only [step, VmMain.syscall]
      split
      · exact nothing _ engine
      · simpa using Said.kickCanceled (-1)
    | argv n bufferLength => exact nothing _ engine
    | sendServerCommand clientNum text => exact nothing _ engine
    | setConfigstring num string => exact nothing _ engine
    | other => exact nothing _ engine
  | leave refused engine =>
    rw [step.eq_def]
    cases module.calls with
    | nil => exact nothing _ engine
    | cons call calls => exact nothing _ engine

/-- What is said in a run is said with the names it writes. -/
theorem said_run_requests (nothing : Allowed []) (isOriginalEngine : Bool) (bans : BanFile.Server) {events : List Event}
    (writes : ∀ event ∈ events, Writes Allowed (engineOf event)) {entry : Event × Answer}
    (member : entry ∈ trace step (.init isOriginalEngine bans) events) :
    ∀ request ∈ entry.2.requests, Said Allowed (typing entry.1 = true) (engineOf entry.1) request := by
  obtain ⟨before, after, rfl, answer⟩ := mem_trace step member
  have named := named_final nothing isOriginalEngine bans before fun event listed =>
    writes event (List.mem_append_left _ listed)
  rw [answer]
  exact said_step named entry.1 (writes entry.1 (List.mem_append_right _ List.mem_cons_self))

end Said

/-! ## Lengths -/

/-- The longest text of `trap_SendServerCommand`. -/
def maxServerCommand : Nat := 1022

theorem length_cheaterText {name : CString} (short : ShortName name) : (cheaterText name).length ≤ maxServerCommand := by
  have sizes : "chat \"^3(Anti-Cheat system) ^7".toList.length = 30 ∧
    "^3 got kicked cause of cheating^7\"".toList.length = 34 ∧ maxNetname = 36 ∧ maxServerCommand = 1022 := by decide
  rw [ShortName] at short
  change (_ ++ name ++ _).length ≤ maxServerCommand
  rw [List.length_append, List.length_append]
  omega

theorem length_noClientText {arg : CString} (short : arg.length < maxCvarValueString) :
    (noClientText arg).length ≤ maxServerCommand := by
  have sizes : "print \"there is no client named '".toList.length ≤ 40 ∧
    "' currently on the server.\n\"".toList.length ≤ 40 ∧ maxCvarValueString = 256 ∧ maxServerCommand = 1022 := by decide
  change (_ ++ arg ++ _).length ≤ maxServerCommand
  rw [List.length_append, List.length_append]
  omega

end YbeProxy.ModuleTexts
