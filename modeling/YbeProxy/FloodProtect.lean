import YbeProxy.ActiveClients
import YbeProxy.CommandOrder
import YbeProxy.CommandSteps
import Mathlib.Data.List.Induction

/-!
# Flood protection

Each client command that the server executes puts the next one a second away, whether its text is heard or not. Over a
whole run of packets the text of a client that plays is heard exactly where the second before it was silent, and the
game gets no other.
-/

namespace YbeProxy.FloodProtect
open YbeProxy.Strings
open YbeProxy.ClientMessage
open YbeProxy.MessageSteps
open YbeProxy.ServerCommands (Env ClientT Work proxySvExecuteClientCommand proxySvUpdateUserinfoF takeUserinfo
  svUserinfoChanged)
open YbeProxy.CommandOrder (Packet deliver)
open YbeProxy.ActiveClients (commandCalls)
open YbeProxy.Runs (trace final)

/-! ## The calls of a command -/

def toGame : ServerCommands.Call → Bool
  | .gameClientCommand => true
  | _ => false

def Unheard (work : Work) : Prop := work.calls.any toGame = false

theorem Unheard.call {work : Work} (unheard : Unheard work) {call : ServerCommands.Call} (other : toGame call = false)
    (cl : ClientT) : Unheard { work.log call with cl } := by
  simp only [Unheard, Work.log, List.any_append, List.any_cons, List.any_nil, other, Bool.or_false]
  exact unheard

variable {env : Env} {tokens : List CString}

theorem Act.unheard (work next : Work) (act : CommandSteps.Act env tokens work next) (unheard : Unheard work) :
    Unheard next := by
  cases act with
  | @quiet call quiet =>
    refine unheard.call ?_ work.cl
    cases call <;> first | rfl | cases quiet
  | drop reason => exact unheard.call rfl _
  | download => exact unheard
  | pure => exact unheard
  | snapshot => exact unheard.call rfl _
  | beginDownload => exact unheard.call rfl _
  | doneDownload => exact unheard.call rfl _

theorem takeUserinfo_unheard (arg : CString) {work : Work} (unheard : Unheard work) :
    Unheard (takeUserinfo env arg work) := by
  have changed : ∀ work : Work, Unheard work → Unheard (svUserinfoChanged env work) := by
    intro work unheard
    rw [svUserinfoChanged]
    split
    · have same : Unheard { work with cl := { work.cl with info := _ } } := unheard
      exact same.call rfl _
    · exact unheard
  have taken : Unheard (svUserinfoChanged env { work with cl := { work.cl with
      info := { work.cl.info with userinfo := .copy arg } } }) := changed _ unheard
  exact taken.call rfl _

theorem updateUserinfo_unheard (cl : ClientT) : Unheard (proxySvUpdateUserinfoF env tokens ⟨cl, []⟩) := by
  rw [proxySvUpdateUserinfoF]
  simp only
  split
  · rfl
  split
  · split
    · rfl
    · exact takeUserinfo_unheard _ rfl
  · exact takeUserinfo_unheard _ rfl

/-- A command reaches the game only where its text is heard. -/
theorem heard_of_toGame (cl : ClientT) (s : CString) (clientOk : Bool)
    (reached : (proxySvExecuteClientCommand env cl s clientOk).calls.any toGame = true) : clientOk = true := by
  rcases CommandSteps.executeClientCommand_cases env cl s clientOk with ⟨_, result⟩ | ⟨_, acts | ⟨heard, _⟩⟩
  · rw [result, updateUserinfo_unheard cl] at reached
    cases reached
  · have unheard : Unheard _ := acts.keeps Act.unheard rfl
    rw [unheard] at reached
    cases reached
  · exact heard

/-! ## The commands of a message -/

variable {Msg : Type} (engine : Engine Msg) (sv : Server)

/-- The time from which a text is heard, after a command. -/
def nextTime (next : Int32) (command : Server × Handled) : Int32 :=
  match command.2.fate with
  | .executed _ => command.1.time + 1000
  | _ => next

/-- Commands that are handled, each with the server then: the client that a command finds may speak from the time that
the commands before it lead to, and it is heard by what the client is then. -/
def Timed : Int32 → List (Server × Handled) → Prop
  | _, [] => True
  | next, command :: rest =>
    (command.2.before.nextReliableTime = next ∧
        ∀ clientOk, command.2.fate = .executed clientOk → clientOk = !flooding command.1 command.2.before) ∧
      Timed (nextTime next command) rest

theorem Timed.append {next : Int32} {first second : List (Server × Handled)} (start : Timed next first)
    (more : Timed (first.foldl nextTime next) second) : Timed next (first ++ second) := by
  induction first generalizing next with
  | nil => exact more
  | cons command rest hypothesis => exact ⟨start.1, hypothesis start.2 more⟩

theorem Timed.split {next : Int32} {before after : List (Server × Handled)} {command : Server × Handled}
    (timed : Timed next (before ++ command :: after)) :
    command.2.before.nextReliableTime = before.foldl nextTime next ∧
      ∀ clientOk, command.2.fate = .executed clientOk → clientOk = !flooding command.1 command.2.before := by
  induction before generalizing next with
  | nil => exact timed.1
  | cons first rest hypothesis => exact hypothesis timed.2

/-- The functions of the engine that leave the time of the next text alone. -/
structure LeavesTime : Prop where
  execute : ∀ cl s clientOk, (engine.svExecuteClientCommand cl s clientOk).nextReliableTime = cl.nextReliableTime
  drop : ∀ cl reason, (engine.svDropClient cl reason).nextReliableTime = cl.nextReliableTime
  enter : ∀ cl cmd, (engine.svClientEnterWorld cl cmd).nextReliableTime = cl.nextReliableTime
  think : ∀ cl cmd, (engine.svClientThink cl cmd).nextReliableTime = cl.nextReliableTime
  gamestate : ∀ cl, (engine.svSendClientGameState cl).nextReliableTime = cl.nextReliableTime

variable {engine}

theorem fateOf_executed {cl : Client} {seq : Int32} {clientOk : Bool} (fate : fateOf sv cl seq = .executed clientOk) :
    clientOk = !flooding sv cl := by
  rw [fateOf] at fate
  split at fate
  · cases fate
  split at fate
  · cases fate
  · exact (Fate.executed.inj fate).symm

theorem clientCommand_time (leaves : LeavesTime engine) (turn : Turn) (msg : Msg) :
    (proxySvClientCommand engine sv turn msg).2.1.cl.nextReliableTime =
      nextTime turn.cl.nextReliableTime (sv, handledCommand engine sv turn msg) := by
  rw [nextTime]
  rcases (clientCommand_cases engine sv turn msg).2 with
    ⟨fate, _, _, same⟩ | ⟨_, fate, _, _, client⟩ | ⟨fate, _, _, dropped⟩
  · simp only [fate, same]
  · simp only [fate, client, leaves.execute]
    rfl
  · simp only [fate, dropped, leaves.drop]

/-- The commands of a message keep the time, up to the client after them. -/
theorem handled_timed (leaves : LeavesTime engine) (turn : Turn) (msg : Msg) :
    Timed turn.cl.nextReliableTime ((handled engine sv turn msg).map (sv, ·)) ∧
      (readCommands engine sv turn msg).2.1.cl.nextReliableTime =
        ((handled engine sv turn msg).map (sv, ·)).foldl nextTime turn.cl.nextReliableTime := by
  have fate : ∀ turn msg clientOk, (handledCommand engine sv turn msg).fate = .executed clientOk →
      clientOk = !flooding sv turn.cl :=
    fun turn msg clientOk executed => fateOf_executed sv executed
  induction turn, msg using loop_induction engine sv with
  | ends turn msg other =>
    obtain ⟨read, none, _⟩ := loop_ends engine sv turn other
    rw [read, none]
    exact ⟨trivial, rfl⟩
  | stops turn msg command stops =>
    obtain ⟨read, one⟩ := loop_stops engine sv turn command stops
    rw [read, one]
    exact ⟨⟨⟨rfl, fate turn _⟩, trivial⟩, clientCommand_time sv leaves turn _⟩
  | goesOn turn msg command goesOn hypothesis =>
    obtain ⟨read, more⟩ := loop_goes_on engine sv turn command goesOn
    rw [clientCommand_time sv leaves] at hypothesis
    rw [read, more]
    exact ⟨⟨⟨rfl, fate turn _⟩, hypothesis.1⟩, hypothesis.2⟩

theorem Moves.time (leaves : LeavesTime engine) {turn next : Turn} (moves : Moves engine sv turn next) :
    next.cl.nextReliableTime = turn.cl.nextReliableTime := by
  induction moves with
  | refl => rfl
  | tail _ move hypothesis =>
    refine Eq.trans ?_ hypothesis
    cases move with
    | delta deltaMessage => rfl
    | acknowledge =>
      rw [acknowledgeFrame]
      split <;> rfl
    | print text => rfl
    | receive cmds => rfl
    | enter cmd primed => exact leaves.enter _ cmd
    | drop reason => exact leaves.drop _ reason
    | think cmd => exact leaves.think _ cmd

theorem message_timed (leaves : LeavesTime engine) (cl : Client) (msg : Msg) :
    Timed cl.nextReliableTime ((messageHandled engine sv cl msg).map (sv, ·)) ∧
      (proxySvExecuteClientMessage engine sv cl msg).cl.nextReliableTime =
        ((messageHandled engine sv cl msg).map (sv, ·)).foldl nextTime cl.nextReliableTime := by
  obtain ⟨messageAcknowledge, reliableAcknowledge, now, same, ⟨rest, part, result⟩ | ⟨part, ended⟩⟩ :=
    executeClientMessage_cases engine sv cl msg
  · have known : messageHandled engine sv cl msg = handled engine sv ⟨now, []⟩ rest := by rw [messageHandled, part]
    have start : cl.nextReliableTime = now.nextReliableTime := by rw [same]
    obtain ⟨timed, read⟩ := handled_timed sv leaves ⟨now, []⟩ rest
    have after : (afterCommands engine sv (readCommands engine sv ⟨now, []⟩ rest)).cl.nextReliableTime =
        (readCommands engine sv ⟨now, []⟩ rest).2.1.cl.nextReliableTime := by
      rcases readCommands engine sv ⟨now, []⟩ rest with ⟨_ | c, turn, left⟩
      · rfl
      · exact Moves.time sv leaves (afterCommands_moves engine sv c turn left)
    rw [known, start, result, after]
    exact ⟨timed, read⟩
  · have known : messageHandled engine sv cl msg = [] := by rw [messageHandled, part]
    have start : now.nextReliableTime = cl.nextReliableTime := by rw [same]
    rw [known]
    refine ⟨trivial, ?_⟩
    rcases ended with ⟨client, _⟩ | ⟨_, client, _⟩
    · rw [client]
      exact start
    · rw [client, leaves.gamestate]
      exact start

/-! ## Runs of packets -/

variable (engine)

/-- The commands of a packet that were handled, each with the server then. -/
def handledBy (entry : Packet Msg × Option Client) : List (Server × Handled) :=
  match entry.2 with
  | some cl => (messageHandled engine entry.1.sv cl entry.1.msg).map (entry.1.sv, ·)
  | none => []

def handledCommands (cl : Client) (packets : List (Packet Msg)) : List (Server × Handled) :=
  (trace (deliver engine) cl packets).flatMap (handledBy engine)

variable {engine}

theorem run_timed (leaves : LeavesTime engine) (cl : Client) (packets : List (Packet Msg))
    (quiet : ∀ packet ∈ packets, ∀ cl, (packet.meanwhile cl).nextReliableTime = cl.nextReliableTime) :
    Timed cl.nextReliableTime (handledCommands engine cl packets) := by
  induction packets generalizing cl with
  | nil => trivial
  | cons packet rest hypothesis =>
    have now := quiet packet List.mem_cons_self cl
    have later := hypothesis (deliver engine cl packet).2
      fun later member => quiet later (List.mem_cons_of_mem packet member)
    have one : Timed cl.nextReliableTime (handledBy engine (packet, (deliver engine cl packet).1)) ∧
        (deliver engine cl packet).2.nextReliableTime =
          (handledBy engine (packet, (deliver engine cl packet).1)).foldl nextTime cl.nextReliableTime := by
      by_cases zombie : (packet.meanwhile cl).state = .csZombie
      · simp [deliver, handledBy, zombie, now, Timed]
      · have message := message_timed packet.sv leaves (packet.meanwhile cl) packet.msg
        rw [now] at message
        simpa [deliver, handledBy, zombie] using message
    rw [one.2] at later
    exact one.1.append later

/-- The flood protection is on, and the client is in the game. -/
def Protected (command : Server × Handled) : Prop :=
  command.1.comClRunning = false ∧ command.1.svFloodProtect = true ∧ command.2.before.state = .csActive

/-- No command was executed in the second before. -/
def Silent (before : List (Server × Handled)) (sv : Server) : Prop :=
  ∀ earlier ∈ before, earlier.2.executed ≠ none → earlier.1.time.toInt + 1000 ≤ sv.time.toInt

theorem mem_handledBy {entry : Packet Msg × Option Client} {command : Server × Handled}
    (member : command ∈ handledBy engine entry) : command.1 = entry.1.sv := by
  rw [handledBy] at member
  split at member
  · obtain ⟨h, _, rfl⟩ := List.mem_map.mp member
    rfl
  · cases member

theorem mem_handledCommands {cl : Client} {packets : List (Packet Msg)} {command : Server × Handled}
    (member : command ∈ handledCommands engine cl packets) : ∃ packet ∈ packets, command.1 = packet.sv := by
  obtain ⟨entry, listed, inside⟩ := List.mem_flatMap.mp member
  have event : entry.1 ∈ (trace (deliver engine) cl packets).map Prod.fst := List.mem_map_of_mem listed
  rw [Runs.trace_fst] at event
  exact ⟨entry.1, event, mem_handledBy inside⟩

theorem handledCommands_ordered (cl : Client) {packets : List (Packet Msg)}
    (ordered : packets.Pairwise fun a b => a.sv.time.toInt ≤ b.sv.time.toInt) :
    (handledCommands engine cl packets).Pairwise fun a b => a.1.time.toInt ≤ b.1.time.toInt := by
  induction packets generalizing cl with
  | nil => exact List.Pairwise.nil
  | cons packet rest hypothesis =>
    obtain ⟨first, later⟩ := List.pairwise_cons.mp ordered
    refine List.pairwise_append.mpr ⟨?_, hypothesis (deliver engine cl packet).2 later, ?_⟩
    · refine List.pairwise_of_forall_mem_list ?_
      intro a memberA b memberB
      have same : a.1 = b.1 := (mem_handledBy memberA).trans (mem_handledBy memberB).symm
      exact Int.le_of_eq (congrArg (fun sv : Server => sv.time.toInt) same)
    · intro a memberA b memberB
      obtain ⟨other, listed, same⟩ := mem_handledCommands memberB
      rw [mem_handledBy memberA, same]
      exact first other listed

/-- The time that commands lead to has come where they leave a second of silence. -/
theorem foldl_nextTime_le_iff {before : List (Server × Handled)} {sv : Server} {start : Int32}
    (ordered : before.Pairwise fun a b => a.1.time.toInt ≤ b.1.time.toInt)
    (early : ∀ command ∈ before, command.1.time.toInt ≤ 0x70000000) (begun : start.toInt ≤ sv.time.toInt) :
    (before.foldl nextTime start).toInt ≤ sv.time.toInt ↔ Silent before sv := by
  induction before using List.reverseRecOn with
  | nil => simp [Silent, begun]
  | append_singleton before last hypothesis =>
    obtain ⟨inOrder, _, sorted⟩ := List.pairwise_append.mp ordered
    have earlier := hypothesis inOrder fun command member => early command (List.mem_append_left _ member)
    have reached := early last (List.mem_append_right before List.mem_cons_self)
    rw [List.foldl_append, List.foldl_cons, List.foldl_nil, nextTime, Silent, List.forall_mem_append,
      List.forall_mem_singleton]
    split
    · rename_i clientOk fate
      have later : (last.1.time + 1000).toInt = last.1.time.toInt + 1000 := by
        have low := last.1.time.le_toInt
        rw [Int32.toInt_add, show (1000 : Int32).toInt = 1000 from rfl]
        exact Int.bmod_eq_of_le (by omega) (by omega)
      have executed : last.2.executed ≠ none := by simp [Handled.executed, fate]
      rw [later]
      constructor
      · intro silent
        refine ⟨?_, fun _ => silent⟩
        intro command member _
        have := sorted command member last List.mem_cons_self
        omega
      · intro silent
        exact silent.2 executed
    · rename_i fate
      have skipped : last.2.executed = none := by
        rw [Handled.executed]
        split
        · rename_i clientOk executed
          exact absurd executed (fate clientOk)
        · rfl
      rw [earlier, Silent]
      simp [skipped]

/-- Over every run of packets a command of a client that plays is heard exactly where no command was executed in the
second before it, and the game gets its text only there. -/
theorem heard_after_silence (leaves : LeavesTime engine) (cl : Client) (packets : List (Packet Msg))
    (quiet : ∀ packet ∈ packets, ∀ cl, (packet.meanwhile cl).nextReliableTime = cl.nextReliableTime)
    (ordered : packets.Pairwise fun a b => a.sv.time.toInt ≤ b.sv.time.toInt)
    (times : ∀ packet ∈ packets, cl.nextReliableTime.toInt ≤ packet.sv.time.toInt ∧ packet.sv.time.toInt ≤ 0x70000000)
    {before after : List (Server × Handled)} {sv : Server} {h : Handled} {clientOk : Bool}
    (split : handledCommands engine cl packets = before ++ (sv, h) :: after) (executed : h.fate = .executed clientOk)
    (protects : Protected (sv, h)) :
    (clientOk = true ↔ Silent before sv) ∧
      ∀ env rest, (commandCalls sv env rest h).any toGame = true → Silent before sv := by
  obtain ⟨time, heard⟩ := (split ▸ run_timed leaves cl packets quiet).split
  have inOrder : (before ++ (sv, h) :: after).Pairwise fun a b => a.1.time.toInt ≤ b.1.time.toInt :=
    split ▸ handledCommands_ordered cl ordered
  have early : ∀ command ∈ before, command.1.time.toInt ≤ 0x70000000 := by
    intro command member
    obtain ⟨packet, listed, same⟩ := mem_handledCommands (split ▸ List.mem_append_left _ member)
    rw [same]
    exact (times packet listed).2
  obtain ⟨packet, listed, same⟩ := mem_handledCommands
    (show (sv, h) ∈ handledCommands engine cl packets from split ▸ List.mem_append_right before List.mem_cons_self)
  have begun : cl.nextReliableTime.toInt ≤ sv.time.toInt := by
    rw [show sv = packet.sv from same]
    exact (times packet listed).1
  have silence := foldl_nextTime_le_iff (List.pairwise_append.mp inOrder).1 early begun
  have open_ : clientOk = true ↔ Silent before sv := by
    obtain ⟨notRunning, on, plays⟩ := protects
    rw [← silence, ← time, heard clientOk executed, flooding, notRunning, on, plays]
    simp [Int32.lt_iff_toInt_lt]
  refine ⟨open_, ?_⟩
  intro env rest reached
  rw [commandCalls, executed] at reached
  exact open_.mp (heard_of_toGame _ h.s clientOk reached)

/-- Three commands, the second of them too soon. -/
def sampleTexts : List (Packet (List Int32)) :=
  [([0, 1, 1, 4, 1, 5], 5000), ([0, 2, 1, 4, 2, 5], 5400), ([0, 3, 1, 4, 3, 5], 6400)].map fun (msg, time) =>
    ⟨{ sampleServer with time }, id, msg⟩

theorem heard_after_silence_sample :
    ∃ first second third, handledCommands numbersEngine sampleClient sampleTexts = [first, second, third] ∧
      (third.2.fate = .executed true ∧ Silent [first, second] third.1) ∧
      second.2.fate = .executed false ∧ ¬ Silent [first] second.1 := by
  have three : (handledCommands numbersEngine sampleClient sampleTexts).length = 3 := by decide +kernel
  have fates : (handledCommands numbersEngine sampleClient sampleTexts).map (fun command => command.2.fate) =
      [.executed true, .executed false, .executed true] := by decide +kernel
  have protects : (handledCommands numbersEngine sampleClient sampleTexts).all (fun command =>
      !command.1.comClRunning && command.1.svFloodProtect && command.2.before.state = .csActive) = true := by
    decide +kernel
  obtain ⟨first, second, third, commands⟩ := List.length_eq_three.mp three
  rw [commands] at fates protects
  simp only [List.map_cons, List.map_nil, List.cons.injEq, and_true, List.all_cons, List.all_nil, Bool.and_true,
    Bool.and_eq_true, Bool.not_eq_true', decide_eq_true_eq] at fates protects
  have leaves : LeavesTime numbersEngine :=
    ⟨fun _ _ _ => rfl, fun _ _ => rfl, fun _ _ => rfl, fun _ _ => rfl, fun _ => rfl⟩
  have quiet : ∀ packet ∈ sampleTexts, ∀ cl, (packet.meanwhile cl).nextReliableTime = cl.nextReliableTime := by
    intro packet member cl
    obtain ⟨_, _, rfl⟩ := List.mem_map.mp member
    rfl
  have late : handledCommands numbersEngine sampleClient sampleTexts = [first, second] ++ (third.1, third.2) :: [] := commands
  have soon : handledCommands numbersEngine sampleClient sampleTexts = [first] ++ (second.1, second.2) :: [third] := commands
  obtain ⟨heard, _⟩ := heard_after_silence leaves sampleClient sampleTexts quiet (by decide) (by decide) late fates.2.2
    ⟨protects.2.2.1.1, protects.2.2.1.2, protects.2.2.2⟩
  obtain ⟨unheard, _⟩ := heard_after_silence leaves sampleClient sampleTexts quiet (by decide) (by decide) soon fates.2.1
    ⟨protects.2.1.1.1, protects.2.1.1.2, protects.2.1.2⟩
  refine ⟨first, second, third, commands, ⟨fates.2.2, heard.mp rfl⟩, fates.2.1, ?_⟩
  intro silent
  exact Bool.noConfusion (unheard.mpr silent)

end YbeProxy.FloodProtect
