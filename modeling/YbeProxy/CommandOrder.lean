import YbeProxy.MessageSteps
import YbeProxy.Runs
import Mathlib.Data.List.Range

/-!
# The order of client commands

A client repeats its commands until the server has acknowledged them, so packets bring them late, twice or not at all.
Over a whole run of packets the commands that are executed carry the numbers after the last one executed, each once and
none left out.
-/

namespace YbeProxy.CommandOrder
open YbeProxy.ClientMessage
open YbeProxy.MessageSteps
open YbeProxy.Runs (trace final)

/-- Commands that are handled after the command number `last`, in order: an old number is passed over, the next one is
executed, a later one is not, and a command that stops the message is the last of it. -/
def InOrder : Int → List Handled → Prop
  | _, [] => True
  | last, h :: rest =>
    (h.Stops → rest = []) ∧
      match h.fate with
      | .repeated => h.seq.toInt ≤ last ∧ InOrder last rest
      | .executed _ => h.seq.toInt = last + 1 ∧ InOrder (last + 1) rest
      | .lost => last + 1 < h.seq.toInt

def numbersAfter (last : Int) (count : Nat) : List Int := (List.range count).map fun (i : Nat) => last + 1 + (i : Int)

theorem numbersAfter_succ (last : Int) (count : Nat) :
    numbersAfter last (count + 1) = (last + 1) :: numbersAfter (last + 1) count := by
  simp only [numbersAfter, List.range_succ_eq_map, List.map_cons, List.map_map]
  congr 1
  · simp
  · apply List.map_congr_left
    intro i _
    simp only [Function.comp_apply, Nat.cast_succ]
    omega

theorem numbersAfter_add (last : Int) (first second : Nat) :
    numbersAfter last (first + second) = numbersAfter last first ++ numbersAfter (last + first) second := by
  induction first generalizing last with
  | zero => simp [numbersAfter]
  | succ first hypothesis =>
    rw [show first + 1 + second = first + second + 1 by omega, numbersAfter_succ, numbersAfter_succ, hypothesis,
      List.cons_append]
    congr 3
    push_cast
    omega

theorem InOrder.numbers {last : Int} {commands : List Handled} (ordered : InOrder last commands) :
    (commands.filterMap Handled.executed).map Int32.toInt =
      numbersAfter last (commands.filterMap Handled.executed).length := by
  induction commands generalizing last with
  | nil => rfl
  | cons h rest hypothesis =>
    obtain ⟨stop, judged⟩ := ordered
    cases fate : h.fate with
    | repeated =>
      have none : h.executed = none := by rw [Handled.executed, fate]
      rw [fate] at judged
      rw [List.filterMap_cons_none none]
      exact hypothesis judged.2
    | executed clientOk =>
      have some : h.executed = some h.seq := by rw [Handled.executed, fate]
      rw [fate] at judged
      rw [List.filterMap_cons_some some, List.map_cons, List.length_cons, numbersAfter_succ, judged.1,
        hypothesis judged.2]
    | lost =>
      rw [stop (Or.inl fate)]
      simp [Handled.executed, fate, numbersAfter]

/-! ## The commands of a message -/

variable {Msg : Type} (engine : Engine Msg) (sv : Server)

theorem handled_inOrder (turn : Turn) (msg : Msg) :
    InOrder turn.cl.lastClientCommand.toInt (handled engine sv turn msg) := by
  induction turn, msg using loop_induction engine sv with
  | ends turn msg other =>
    rw [(loop_ends engine sv turn other).2.1]
    trivial
  | stops turn msg command stops =>
    rw [(loop_stops engine sv turn command stops).2]
    refine ⟨fun _ => rfl, ?_⟩
    rcases (clientCommand_cases engine sv turn (engine.msgReadByte msg).2).2 with
      ⟨fate, number, _⟩ | ⟨_, fate, number, _⟩ | ⟨fate, number, _⟩
    · rw [fate]
      exact ⟨number, trivial⟩
    · rw [fate]
      exact ⟨number, trivial⟩
    · rw [fate]
      exact number
  | goesOn turn msg command goesOn hypothesis =>
    rw [(loop_goes_on engine sv turn command goesOn).2]
    refine ⟨fun stops => absurd stops goesOn, ?_⟩
    rcases (clientCommand_cases engine sv turn (engine.msgReadByte msg).2).2 with
      ⟨fate, number, _, same⟩ | ⟨_, fate, number, _, client⟩ | ⟨fate, _⟩
    · rw [fate]
      rw [same] at hypothesis
      exact ⟨number, hypothesis⟩
    · rw [fate]
      rw [client, number] at hypothesis
      exact ⟨number, hypothesis⟩
    · exact absurd (Or.inl fate) goesOn

/-- The functions of the engine that leave the number of the last command executed alone. -/
structure LeavesNumber : Prop where
  drop : ∀ cl reason, (engine.svDropClient cl reason).lastClientCommand = cl.lastClientCommand
  enter : ∀ cl cmd, (engine.svClientEnterWorld cl cmd).lastClientCommand = cl.lastClientCommand
  think : ∀ cl cmd, (engine.svClientThink cl cmd).lastClientCommand = cl.lastClientCommand
  gamestate : ∀ cl, (engine.svSendClientGameState cl).lastClientCommand = cl.lastClientCommand

/-- One turn leads to another without executing a client command. -/
def RunsNone (turn next : Turn) : Prop :=
  (∃ moves, acts next.calls = acts turn.calls ++ moves ∧ ∀ call ∈ moves, isExecute call = false) ∧
    next.cl.lastClientCommand = turn.cl.lastClientCommand

namespace RunsNone

theorem client (turn : Turn) {cl : Client} (number : cl.lastClientCommand = turn.cl.lastClientCommand) :
    RunsNone turn { turn with cl } :=
  ⟨⟨[], by simp, by simp⟩, number⟩

/-- A call other than the one that executes a command, whatever it makes of the client. -/
theorem call (turn : Turn) {call : Call} (other : isExecute call = false) {cl : Client}
    (number : cl.lastClientCommand = turn.cl.lastClientCommand) :
    RunsNone turn { turn.log call with cl } := by
  refine ⟨⟨_, acts_log turn call, ?_⟩, number⟩
  intro logged member
  split at member
  · cases member
  · rw [List.mem_singleton.mp member, other]

theorem trans {first second third : Turn} (start : RunsNone first second) (next : RunsNone second third) :
    RunsNone first third := by
  obtain ⟨⟨early, earlyCalls, earlyQuiet⟩, earlyNumber⟩ := start
  obtain ⟨⟨late, lateCalls, lateQuiet⟩, lateNumber⟩ := next
  refine ⟨⟨early ++ late, ?_, List.forall_mem_append.mpr ⟨earlyQuiet, lateQuiet⟩⟩, lateNumber.trans earlyNumber⟩
  rw [lateCalls, earlyCalls, List.append_assoc]

end RunsNone

variable {engine sv}

theorem Move.runsNone (leaves : LeavesNumber engine) {turn next : Turn} (move : Move engine sv turn next) :
    RunsNone turn next := by
  cases move with
  | delta deltaMessage => exact RunsNone.client turn rfl
  | acknowledge =>
    refine RunsNone.client turn ?_
    rw [acknowledgeFrame]
    split <;> rfl
  | print text => exact RunsNone.call turn rfl rfl
  | receive cmds => exact RunsNone.call turn rfl rfl
  | enter cmd primed => exact RunsNone.call turn rfl (leaves.enter turn.cl cmd)
  | drop reason => exact RunsNone.call turn rfl (leaves.drop turn.cl reason)
  | think cmd => exact RunsNone.call turn rfl (leaves.think turn.cl cmd)

theorem Moves.runsNone (leaves : LeavesNumber engine) {turn next : Turn} (moves : Moves engine sv turn next) :
    RunsNone turn next := by
  induction moves with
  | refl => exact RunsNone.client turn rfl
  | tail _ move hypothesis => exact hypothesis.trans (Move.runsNone leaves move)

/-! ## A message -/

variable (engine sv)

/-- Commands that are handled after the number `last`, and what the message calls: what the commands call and, unless
one of them has stopped the message, what is no command. -/
structure Obeys (last : Int) (cl : Client) (msg : Msg) : Prop where
  commands : (messageHandled engine sv cl msg).map Handled.command <+: messageCommands engine sv cl msg
  all : (∀ h ∈ messageHandled engine sv cl msg, ¬ h.Stops) →
    (messageHandled engine sv cl msg).map Handled.command = messageCommands engine sv cl msg
  ordered : InOrder last (messageHandled engine sv cl msg)
  calls : ∃ others, acts (proxySvExecuteClientMessage engine sv cl msg).calls =
      (messageHandled engine sv cl msg).flatMap Handled.acts ++ others ∧
    (∀ call ∈ others, isExecute call = false) ∧
    ((∃ h ∈ messageHandled engine sv cl msg, h.Stops) → others = [])

variable {engine}

/-- The number of the last command executed, after the loop over the commands of a message. -/
theorem readCommands_number (leaves : LeavesNumber engine) (turn : Turn) (msg : Msg) :
    (readCommands engine sv turn msg).2.1.cl.lastClientCommand.toInt =
      turn.cl.lastClientCommand.toInt + ((handled engine sv turn msg).filterMap Handled.executed).length := by
  have first : ∀ turn msg, (proxySvClientCommand engine sv turn msg).2.1.cl.lastClientCommand.toInt =
      turn.cl.lastClientCommand.toInt + ([handledCommand engine sv turn msg].filterMap Handled.executed).length := by
    intro turn msg
    rcases (clientCommand_cases engine sv turn msg).2 with
      ⟨fate, _, _, same⟩ | ⟨_, fate, number, _, client⟩ | ⟨fate, _, _, dropped⟩
    · simp [Handled.executed, fate, same]
    · simp [Handled.executed, fate, client, number]
    · rw [dropped, leaves.drop]
      simp [Handled.executed, fate]
  induction turn, msg using loop_induction engine sv with
  | ends turn msg other =>
    obtain ⟨read, none, _⟩ := loop_ends engine sv turn other
    simp [read, none]
  | stops turn msg command stops =>
    obtain ⟨read, one⟩ := loop_stops engine sv turn command stops
    rw [read, one]
    exact first turn _
  | goesOn turn msg command goesOn hypothesis =>
    obtain ⟨read, more⟩ := loop_goes_on engine sv turn command goesOn
    rw [read, more, hypothesis, first]
    cases executed : (handledCommand engine sv turn (engine.msgReadByte msg).2).executed with
    | none => simp [executed]
    | some seq =>
      simp only [List.filterMap_cons_some executed, List.filterMap_nil, List.length_cons, List.length_nil]
      omega

theorem afterCommands_runsNone (leaves : LeavesNumber engine) (read : Option Int32 × Turn × Msg) :
    RunsNone read.2.1 (afterCommands engine sv read) := by
  obtain ⟨_ | c, turn, rest⟩ := read
  · exact RunsNone.client turn rfl
  · exact Moves.runsNone leaves (afterCommands_moves engine sv c turn rest)

theorem message_obeys (leaves : LeavesNumber engine) (cl : Client) (msg : Msg) :
    Obeys engine sv cl.lastClientCommand.toInt cl msg := by
  obtain ⟨messageAcknowledge, reliableAcknowledge, now, same, ⟨rest, part, result⟩ | ⟨part, ended⟩⟩ :=
    executeClientMessage_cases engine sv cl msg
  · have commands : messageCommands engine sv cl msg = commandsOf engine rest := by rw [messageCommands, part]
    have known : messageHandled engine sv cl msg = handled engine sv ⟨now, []⟩ rest := by rw [messageHandled, part]
    have number : cl.lastClientCommand = now.lastClientCommand := by rw [same]
    have inside := readCommands_acts engine sv ⟨now, []⟩ rest
    obtain ⟨⟨others, after, quiet⟩, _⟩ := afterCommands_runsNone sv leaves (readCommands engine sv ⟨now, []⟩ rest)
    refine ⟨?_, ?_, ?_, others, ?_, quiet, ?_⟩
    · rw [known, commands]
      exact (handled_commands engine sv ⟨now, []⟩ rest).1
    · rw [known, commands]
      exact (handled_commands engine sv ⟨now, []⟩ rest).2
    · rw [known, number]
      exact handled_inOrder engine sv ⟨now, []⟩ rest
    · rw [result, known, after, inside]
      rfl
    · intro stopped
      rw [known, ← readCommands_none_iff] at stopped
      rw [afterCommands_none engine sv _ stopped] at after
      exact List.self_eq_append_right.mp after
  · have commands : messageCommands engine sv cl msg = [] := by rw [messageCommands, part]
    have known : messageHandled engine sv cl msg = [] := by rw [messageHandled, part]
    have others : ∀ call ∈ acts (proxySvExecuteClientMessage engine sv cl msg).calls, isExecute call = false := by
      rcases ended with ⟨_, none⟩ | ⟨_, _, sent⟩
      · simp [none]
      · simp [sent, isExecute]
    refine ⟨?_, ?_, ?_, acts (proxySvExecuteClientMessage engine sv cl msg).calls, ?_, others, ?_⟩
    · rw [known, commands]
      exact List.prefix_rfl
    · intro _
      rw [known, commands]
      rfl
    · rw [known]
      trivial
    · rw [known]
      rfl
    · rintro ⟨h, member, _⟩
      rw [known] at member
      cases member

theorem message_number (leaves : LeavesNumber engine) (cl : Client) (msg : Msg) :
    (proxySvExecuteClientMessage engine sv cl msg).cl.lastClientCommand.toInt =
      cl.lastClientCommand.toInt + ((messageHandled engine sv cl msg).filterMap Handled.executed).length := by
  obtain ⟨messageAcknowledge, reliableAcknowledge, now, same, ⟨rest, part, result⟩ | ⟨part, ended⟩⟩ :=
    executeClientMessage_cases engine sv cl msg
  · have number : now.lastClientCommand = cl.lastClientCommand := by rw [same]
    have known : messageHandled engine sv cl msg = handled engine sv ⟨now, []⟩ rest := by rw [messageHandled, part]
    rw [result, known, (afterCommands_runsNone sv leaves _).2, readCommands_number sv leaves, number]
  · have number : now.lastClientCommand = cl.lastClientCommand := by rw [same]
    have known : messageHandled engine sv cl msg = [] := by rw [messageHandled, part]
    rw [known]
    rcases ended with ⟨client, _⟩ | ⟨_, client, _⟩
    · simp [client, number]
    · simp [client, leaves.gamestate, number]

/-! ## Runs of packets -/

/-- A packet, the server when it arrives, and what has become of the client since the packet before. -/
structure Packet (Msg : Type) where
  sv : Server
  meanwhile : Client → Client
  msg : Msg

variable (engine)

/-- The packet is handed on for a client that is not a zombie: the client that it was executed for, and the client
then. -/
def deliver (cl : Client) (packet : Packet Msg) : Option Client × Client :=
  let cl := packet.meanwhile cl
  if cl.state = .csZombie then (none, cl) else (some cl, (proxySvExecuteClientMessage engine packet.sv cl packet.msg).cl)

/-- The numbers of the commands that a packet executes. -/
def executedBy (entry : Packet Msg × Option Client) : List Int32 :=
  match entry.2 with
  | some cl => (messageHandled engine entry.1.sv cl entry.1.msg).filterMap Handled.executed
  | none => []

def executedNumbers (cl : Client) (packets : List (Packet Msg)) : List Int32 :=
  (trace (deliver engine) cl packets).flatMap (executedBy engine)

variable {engine}

theorem deliver_number (leaves : LeavesNumber engine) (cl : Client) (packet : Packet Msg)
    (quiet : (packet.meanwhile cl).lastClientCommand = cl.lastClientCommand) :
    (deliver engine cl packet).2.lastClientCommand.toInt =
      cl.lastClientCommand.toInt + (executedBy engine (packet, (deliver engine cl packet).1)).length := by
  by_cases zombie : (packet.meanwhile cl).state = .csZombie
  · simp [deliver, executedBy, zombie, quiet]
  · simp [deliver, executedBy, zombie, message_number packet.sv leaves, quiet]

theorem executedBy_numbers (leaves : LeavesNumber engine) (cl : Client) (packet : Packet Msg)
    (quiet : (packet.meanwhile cl).lastClientCommand = cl.lastClientCommand) :
    (executedBy engine (packet, (deliver engine cl packet).1)).map Int32.toInt =
      numbersAfter cl.lastClientCommand.toInt (executedBy engine (packet, (deliver engine cl packet).1)).length := by
  by_cases zombie : (packet.meanwhile cl).state = .csZombie
  · simp [deliver, executedBy, zombie, numbersAfter]
  · have ordered := (message_obeys packet.sv leaves (packet.meanwhile cl) packet.msg).ordered
    rw [quiet] at ordered
    simpa [deliver, executedBy, zombie] using ordered.numbers

/-- The last number, and all of them, after a run of packets. -/
theorem run_numbers (leaves : LeavesNumber engine) (cl : Client) (packets : List (Packet Msg))
    (quiet : ∀ packet ∈ packets, ∀ cl, (packet.meanwhile cl).lastClientCommand = cl.lastClientCommand) :
    (final (deliver engine) cl packets).lastClientCommand.toInt =
        cl.lastClientCommand.toInt + (executedNumbers engine cl packets).length ∧
      (executedNumbers engine cl packets).map Int32.toInt =
        numbersAfter cl.lastClientCommand.toInt (executedNumbers engine cl packets).length := by
  induction packets generalizing cl with
  | nil => simp [executedNumbers, trace, final, numbersAfter]
  | cons packet rest hypothesis =>
    have now := quiet packet List.mem_cons_self cl
    obtain ⟨last, numbers⟩ := hypothesis (deliver engine cl packet).2
      fun later member => quiet later (List.mem_cons_of_mem packet member)
    rw [deliver_number leaves cl packet now] at last numbers
    have split : executedNumbers engine cl (packet :: rest) = executedBy engine (packet, (deliver engine cl packet).1) ++
        executedNumbers engine (deliver engine cl packet).2 rest := rfl
    rw [split, List.length_append, List.map_append, numbersAfter_add, executedBy_numbers leaves cl packet now, numbers,
      final, last]
    refine ⟨?_, rfl⟩
    push_cast
    omega

/-- Over every run of packets the commands executed carry the numbers after the first `lastClientCommand`, each once and
none left out, and each packet obeys the order. -/
theorem commands_once_in_order (leaves : LeavesNumber engine) (cl : Client) (packets : List (Packet Msg))
    (quiet : ∀ packet ∈ packets, ∀ cl, (packet.meanwhile cl).lastClientCommand = cl.lastClientCommand) :
    (executedNumbers engine cl packets).map Int32.toInt =
        numbersAfter cl.lastClientCommand.toInt (executedNumbers engine cl packets).length ∧
      ∀ before packet after now, packets = before ++ packet :: after →
        (deliver engine (final (deliver engine) cl before) packet).1 = some now →
        Obeys engine packet.sv (cl.lastClientCommand.toInt + (executedNumbers engine cl before).length) now
          packet.msg := by
  refine ⟨(run_numbers leaves cl packets quiet).2, ?_⟩
  intro before packet after now split given
  have early : ∀ packet ∈ before, ∀ cl, (packet.meanwhile cl).lastClientCommand = cl.lastClientCommand := by
    intro packet member
    exact quiet packet (split ▸ List.mem_append_left _ member)
  have here := quiet packet (split ▸ List.mem_append_right before List.mem_cons_self)
  have same : now = packet.meanwhile (final (deliver engine) cl before) := by
    rw [deliver] at given
    split at given
    · exact absurd given.symm (Option.some_ne_none now)
    · exact (Option.some.inj given).symm
  rw [← (run_numbers leaves cl before early).1, ← here, ← same]
  exact message_obeys packet.sv leaves now packet.msg

/-- Two commands, then the same with a third, then one that skips the numbers 4 to 6. -/
def samplePackets : List (Packet (List Int32)) :=
  [[0, 1, 1, 4, 1, 4, 2, 5], [0, 2, 1, 4, 1, 4, 2, 4, 3, 5], [0, 3, 1, 4, 7, 4, 4, 5]].map fun msg =>
    ⟨sampleServer, id, msg⟩

theorem commands_once_in_order_sample :
    executedNumbers numbersEngine sampleClient samplePackets = [1, 2, 3] ∧
      ∀ before packet after now, samplePackets = before ++ packet :: after →
        (deliver numbersEngine (final (deliver numbersEngine) sampleClient before) packet).1 = some now →
        Obeys numbersEngine packet.sv (0 + (executedNumbers numbersEngine sampleClient before).length) now
          packet.msg := by
  have leaves : LeavesNumber numbersEngine :=
    ⟨fun _ _ => rfl, fun _ _ => rfl, fun _ _ => rfl, fun _ => rfl⟩
  refine ⟨by decide +kernel, (commands_once_in_order leaves sampleClient samplePackets ?_).2⟩
  intro packet member cl
  obtain ⟨msg, _, rfl⟩ := List.mem_map.mp member
  rfl

end YbeProxy.CommandOrder
