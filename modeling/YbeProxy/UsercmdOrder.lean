import YbeProxy.MessageSteps
import YbeProxy.Records
import YbeProxy.Runs

/-!
# The order of usercmds

The packets of a client between two calls of `SV_ClientEnterWorld`. A packet repeats usercmds of earlier packets, and
the client chooses every time; what `Proxy_SV_UserMove` runs are the records of the times, above that of the last
usercmd run before.
-/

namespace YbeProxy.UsercmdOrder
open YbeProxy.Strings YbeProxy.ClientMessage YbeProxy.MessageSteps YbeProxy.Records YbeProxy.Runs

variable {Msg : Type} (engine : Engine Msg) (sv : Server)

/-- The time that usercmds are compared by. -/
def time (cmd : Usercmd) : ℤ := cmd.serverTime.toInt

/-- The usercmds of a packet that are not later than its last one. -/
def current (cmds : List Usercmd) : List Usercmd :=
  cmds.filter fun cmd => decide (time cmd ≤ time (cmds.getLastD .null))

def thought : Call → Option Usercmd
  | .svClientThink cmd => some cmd
  | _ => none

/-- The usercmds given to `SV_ClientThink`. -/
def thoughts (calls : List Call) : List Usercmd := calls.filterMap thought

def isEntry : Call → Bool
  | .svClientEnterWorld _ => true
  | _ => false

/-- The count of usercmds of a message is one that `Proxy_SV_UserMove` takes. -/
def Counted (msg : Msg) : Prop := 1 ≤ (engine.msgReadByte msg).1 ∧ (engine.msgReadByte msg).1 ≤ maxPacketUsercmds

/-- The client may move: it is not refused as impure, and it is in the world. -/
def Admitted (cl : Client) : Prop := ¬ (sv.svPure ∧ cl.pureAuthentic = 0) ∧ cl.state = .csActive

/-- `SV_ClientThink` stores the usercmd in `lastUsercmd`. -/
def Stores : Prop := ∀ cl cmd, (engine.svClientThink cl cmd).lastUsercmd = cmd

/-- `SV_DropClient` takes the client out of the world. -/
def Drops : Prop := ∀ cl reason, (engine.svDropClient cl reason).state ≠ .csActive

/-! ## One packet -/

theorem thoughts_append (before after : List Call) : thoughts (before ++ after) = thoughts before ++ thoughts after :=
  List.filterMap_append

@[simp] theorem thoughts_map (cmds : List Usercmd) : thoughts (cmds.map .svClientThink) = cmds := by
  induction cmds with
  | nil => rfl
  | cons cmd rest hypothesis =>
    rw [List.map_cons, thoughts, List.filterMap_cons]
    exact congrArg (cmd :: ·) hypothesis

/-- The loop runs the records of the times that are not later than the last, above the last usercmd. -/
theorem thinkAll_runs {engine : Engine Msg} (stores : Stores engine) (lastTime : Int32) (cmds : List Usercmd)
    (turn : Turn) :
    let fresh := cmds.filter fun cmd => decide (time cmd ≤ lastTime.toInt)
    (thinkAll engine lastTime cmds turn).calls =
        turn.calls ++ (records time (time turn.cl.lastUsercmd) fresh).map .svClientThink ∧
      time (thinkAll engine lastTime cmds turn).cl.lastUsercmd = floorAfter time (time turn.cl.lastUsercmd) fresh := by
  induction cmds generalizing turn with
  | nil => exact ⟨(List.append_nil _).symm, rfl⟩
  | cons cmd rest hypothesis =>
    simp only at hypothesis ⊢
    rw [thinkAll]
    by_cases late : lastTime < cmd.serverTime
    · have behind : ¬ time cmd ≤ lastTime.toInt := not_le_of_gt (Int32.lt_iff_toInt_lt.mp late)
      rw [if_pos (Or.inl late), List.filter_cons, decide_eq_false behind]
      exact hypothesis turn
    · have kept : time cmd ≤ lastTime.toInt := le_of_not_gt fun above => late (Int32.lt_iff_toInt_lt.mpr above)
      rw [List.filter_cons, decide_eq_true kept, if_pos rfl]
      by_cases old : cmd.serverTime ≤ turn.cl.lastUsercmd.serverTime
      · have low : time cmd ≤ time turn.cl.lastUsercmd := Int32.le_iff_toInt_le.mp old
        rw [if_pos (Or.inr old), records_skip low, floorAfter_skip low]
        exact hypothesis turn
      · have high : time turn.cl.lastUsercmd < time cmd :=
          lt_of_not_ge fun low => old (Int32.le_iff_toInt_le.mpr low)
        have run := hypothesis { turn.log (.svClientThink cmd) with cl := engine.svClientThink turn.cl cmd }
        rw [stores turn.cl cmd] at run
        rw [if_neg (not_or_intro late old), records_take high, floorAfter_take high, List.map_cons]
        refine ⟨run.1.trans ?_, run.2⟩
        rw [Turn.log, List.append_assoc]
        rfl

@[simp] theorem acknowledgeFrame_state (cl : Client) : (acknowledgeFrame sv cl).state = cl.state := by
  unfold acknowledgeFrame
  split <;> rfl

@[simp] theorem acknowledgeFrame_lastUsercmd (cl : Client) :
    (acknowledgeFrame sv cl).lastUsercmd = cl.lastUsercmd := by
  unfold acknowledgeFrame
  split <;> rfl

theorem entered_primed (turn : Turn) (msg : Msg) (delta : Bool) (primed : turn.cl.state = .csPrimed) :
    (entered engine sv turn msg delta).calls =
      turn.calls ++ [.svClientEnterWorld ((packetUsercmds engine sv turn msg delta).headD .null)] := by
  have still : (acknowledgeFrame sv (aimed turn delta).cl).state = .csPrimed := by simpa [aimed] using primed
  rw [entered, enterWorld, if_pos still]
  rfl

theorem entered_other (turn : Turn) (msg : Msg) (delta : Bool) (other : turn.cl.state ≠ .csPrimed) :
    (entered engine sv turn msg delta).calls = turn.calls ∧
      (entered engine sv turn msg delta).cl.state = turn.cl.state ∧
      (entered engine sv turn msg delta).cl.lastUsercmd = turn.cl.lastUsercmd := by
  have still : (acknowledgeFrame sv (aimed turn delta).cl).state ≠ .csPrimed := by simpa [aimed] using other
  rw [entered, enterWorld, if_neg still]
  simp [aimed]

theorem entered_thoughts (turn : Turn) (msg : Msg) (delta : Bool) :
    thoughts (entered engine sv turn msg delta).calls = thoughts turn.calls := by
  by_cases primed : turn.cl.state = .csPrimed
  · rw [entered_primed engine sv turn msg delta primed, thoughts_append]
    exact List.append_nil _
  · rw [(entered_other engine sv turn msg delta primed).1]

/-- What a packet makes `Proxy_SV_UserMove` run after the entry step. -/
def ran (turn : Turn) (msg : Msg) (delta : Bool) : List Usercmd :=
  records time (time (entered engine sv turn msg delta).cl.lastUsercmd)
    (current (packetUsercmds engine sv turn msg delta))

/-- The call of `PacketReceived`, when `proxy_sv_enableNetStatus` asks for it. -/
def received (cmds : List Usercmd) : List Call := if sv.proxySvEnableNetStatus then [.packetReceived cmds] else []

@[simp] theorem thoughts_received (cmds : List Usercmd) : thoughts (received sv cmds) = [] := by
  unfold received
  split <;> rfl

/-- An admitted client: the packet is counted, and then the records of its times are run. -/
theorem moveActive_runs {engine : Engine Msg} (stores : Stores engine) (cmds : List Usercmd) (turn : Turn)
    (admitted : Admitted sv turn.cl) :
    (moveActive engine sv cmds turn).calls = turn.calls ++
        (received sv cmds ++ (records time (time turn.cl.lastUsercmd) (current cmds)).map .svClientThink) ∧
      time (moveActive engine sv cmds turn).cl.lastUsercmd =
        floorAfter time (time turn.cl.lastUsercmd) (current cmds) := by
  rw [moveActive, if_neg admitted.1, if_neg (not_not_intro admitted.2)]
  obtain ⟨calls, last⟩ := thinkAll_runs stores (cmds.getLastD .null).serverTime cmds
    (if sv.proxySvEnableNetStatus then turn.log (.packetReceived cmds) else turn)
  by_cases watched : sv.proxySvEnableNetStatus = true
  · rw [if_pos watched] at calls last ⊢
    rw [received, if_pos watched]
    exact ⟨calls.trans (List.append_assoc _ _ _), last⟩
  · rw [if_neg watched] at calls last ⊢
    rw [received, if_neg watched]
    exact ⟨calls, last⟩

theorem userMove_counted (turn : Turn) {msg : Msg} (delta : Bool) (counted : Counted engine msg) :
    proxySvUserMove engine sv turn msg delta =
      moveActive engine sv (packetUsercmds engine sv turn msg delta) (entered engine sv turn msg delta) := by
  rw [userMove_eq, if_neg (Int32.not_lt.mpr counted.1), if_neg (Int32.not_lt.mpr counted.2)]

theorem userMove_uncounted (turn : Turn) {msg : Msg} (delta : Bool) (uncounted : ¬ Counted engine msg) :
    (proxySvUserMove engine sv turn msg delta).cl = (aimed turn delta).cl ∧
      thoughts (proxySvUserMove engine sv turn msg delta).calls = thoughts turn.calls := by
  rw [userMove_eq]
  by_cases few : (engine.msgReadByte msg).1 < 1
  · rw [if_pos few, Turn.log, thoughts_append]
    exact ⟨rfl, List.append_nil _⟩
  · have many : maxPacketUsercmds < (engine.msgReadByte msg).1 :=
      Int32.not_le.mp fun most => uncounted ⟨Int32.not_lt.mp few, most⟩
    rw [if_neg few, if_pos many, Turn.log, thoughts_append]
    exact ⟨rfl, List.append_nil _⟩

/-- Everything a packet comes to: its count is refused and the client stays as it is; or the client is not admitted
and not in the world afterwards; or the records of its times are run. -/
theorem userMove_cases {engine : Engine Msg} (stores : Stores engine) (drops : Drops engine) (turn : Turn) (msg : Msg)
    (delta : Bool) :
    let start := entered engine sv turn msg delta
    let done := proxySvUserMove engine sv turn msg delta
    ¬ Counted engine msg ∧ done.cl = (aimed turn delta).cl ∧ thoughts done.calls = thoughts turn.calls ∨
      Counted engine msg ∧ ∃ more, done.calls = start.calls ++ more ∧
        (¬ Admitted sv start.cl ∧ thoughts more = [] ∧ done.cl.state ≠ .csActive ∨
          Admitted sv start.cl ∧ thoughts more = ran engine sv turn msg delta ∧
            time done.cl.lastUsercmd =
              floorAfter time (time start.cl.lastUsercmd) (current (packetUsercmds engine sv turn msg delta))) := by
  intro start done
  by_cases counted : Counted engine msg
  · refine Or.inr ⟨counted, ?_⟩
    have steps : done = _ := userMove_counted engine sv turn delta counted
    by_cases admitted : Admitted sv start.cl
    · obtain ⟨calls, last⟩ := moveActive_runs sv stores (packetUsercmds engine sv turn msg delta) start admitted
      rw [steps]
      refine ⟨_, calls, Or.inr ⟨admitted, ?_, last⟩⟩
      rw [thoughts_append, thoughts_received, thoughts_map]
      rfl
    by_cases impure : sv.svPure ∧ start.cl.pureAuthentic = 0
    · rw [moveActive, if_pos impure] at steps
      rw [steps]
      exact ⟨[_], rfl, Or.inl ⟨admitted, rfl, drops _ _⟩⟩
    · have away : start.cl.state ≠ .csActive := fun active => admitted ⟨impure, active⟩
      rw [moveActive, if_neg impure, if_pos away] at steps
      rw [steps]
      exact ⟨[], (List.append_nil _).symm, Or.inl ⟨admitted, rfl, away⟩⟩
  · exact Or.inl ⟨counted, userMove_uncounted engine sv turn delta counted⟩

/-! ## The packets of a client -/

/-- A packet as `Proxy_SV_UserMove` gets it, and what happens to the client since the packet before. Only an entry puts
a client into the world, and while it is there only usercmds and entries write `lastUsercmd`. -/
structure Packet (Msg : Type) where
  meanwhile : Client → Client
  stays : ∀ cl, (meanwhile cl).state = .csActive →
    cl.state = .csActive ∧ (meanwhile cl).lastUsercmd = cl.lastUsercmd
  sv : Server
  msg : Msg
  delta : Bool

def handle (cl : Client) (packet : Packet Msg) : List Call × Client :=
  let done := proxySvUserMove engine packet.sv ⟨packet.meanwhile cl, []⟩ packet.msg packet.delta
  (done.calls, done.cl)

/-- The turn of a packet after the entry step, for a client as the packet before left it. -/
def startOf (cl : Client) (packet : Packet Msg) : Turn :=
  entered engine packet.sv ⟨packet.meanwhile cl, []⟩ packet.msg packet.delta

def usercmdsOf (cl : Client) (packet : Packet Msg) : List Usercmd :=
  packetUsercmds engine packet.sv ⟨packet.meanwhile cl, []⟩ packet.msg packet.delta

/-- What a packet must be like for a usercmd of it to run, and how its time lies. -/
structure Justified (cl : Client) (packet : Packet Msg) (cmd : Usercmd) : Prop where
  counted : Counted engine packet.msg
  admitted : Admitted packet.sv (startOf engine cl packet).cl
  fresh : (startOf engine cl packet).cl.lastUsercmd.serverTime < cmd.serverTime
  fresh_start : (packet.meanwhile cl).state ≠ .csPrimed →
    (packet.meanwhile cl).lastUsercmd.serverTime < cmd.serverTime
  notAfterLast : cmd.serverTime ≤ ((usercmdsOf engine cl packet).getLastD .null).serverTime

/-- No usercmd run so far is later than the last usercmd of a client that is in the world. -/
def Behind (run : List Usercmd) (cl : Client) : Prop :=
  cl.state = .csActive → ∀ cmd ∈ run, time cmd ≤ time cl.lastUsercmd

theorem mem_ran {turn : Turn} {msg : Msg} {delta : Bool} {cmd : Usercmd}
    (member : cmd ∈ ran engine sv turn msg delta) :
    time (entered engine sv turn msg delta).cl.lastUsercmd < time cmd ∧
      time cmd ≤ time ((packetUsercmds engine sv turn msg delta).getLastD .null) := by
  have listed := (records_sublist _ _).mem member
  exact ⟨floor_lt_of_mem_records member, of_decide_eq_true (List.mem_filter.mp listed).2⟩

variable {engine}

theorem handle_justified (stores : Stores engine) (drops : Drops engine) (cl : Client) (packet : Packet Msg) :
    ∀ cmd ∈ thoughts (handle engine cl packet).1, Justified engine cl packet cmd := by
  intro cmd member
  obtain ⟨_, _, none⟩ | ⟨counted, more, calls, ⟨_, none, _⟩ | ⟨admitted, run, _⟩⟩ :=
    userMove_cases packet.sv stores drops ⟨packet.meanwhile cl, []⟩ packet.msg packet.delta
  · rw [handle, none] at member
    simp [thoughts] at member
  · rw [handle, calls, thoughts_append, entered_thoughts, none] at member
    simp [thoughts] at member
  · rw [handle, calls, thoughts_append, entered_thoughts, run] at member
    have ranHere : cmd ∈ ran engine packet.sv ⟨packet.meanwhile cl, []⟩ packet.msg packet.delta := by
      simpa [thoughts] using member
    obtain ⟨above, below⟩ := mem_ran engine packet.sv ranHere
    refine ⟨counted, admitted, Int32.lt_iff_toInt_lt.mpr above, ?_, Int32.le_iff_toInt_le.mpr below⟩
    intro other
    rw [← (entered_other engine packet.sv ⟨packet.meanwhile cl, []⟩ packet.msg packet.delta other).2.2]
    exact Int32.lt_iff_toInt_lt.mpr above

/-- The usercmds run before a packet are not later than the last usercmd at its start, if it does not put the client
into the world. -/
theorem Behind.start {run : List Usercmd} {cl : Client} {packet : Packet Msg} (behind : Behind run cl)
    (active : (startOf engine cl packet).cl.state = .csActive)
    (between : run ≠ [] → (packet.meanwhile cl).state ≠ .csPrimed) :
    ∀ cmd ∈ run, time cmd ≤ time (startOf engine cl packet).cl.lastUsercmd := by
  intro cmd member
  obtain ⟨_, state, last⟩ := entered_other engine packet.sv ⟨packet.meanwhile cl, []⟩ packet.msg packet.delta
    (between (List.ne_nil_of_mem member))
  obtain ⟨here, kept⟩ := packet.stays cl (state.symm.trans active)
  rw [startOf, last, kept]
  exact behind here cmd member

variable (stores : Stores engine) (drops : Drops engine)
include stores drops

/-- One packet after those that ran `run`, in a client that it does not put into the world unless it is the first. -/
theorem handle_keeps {run : List Usercmd} {cl : Client} (packet : Packet Msg)
    (ascending : run.Pairwise fun a b => time a < time b) (behind : Behind run cl)
    (between : run ≠ [] → ∀ call ∈ (handle engine cl packet).1, isEntry call = false) :
    (run ++ thoughts (handle engine cl packet).1).Pairwise (fun a b => time a < time b) ∧
      Behind (run ++ thoughts (handle engine cl packet).1) (handle engine cl packet).2 := by
  obtain ⟨_, same, none⟩ | ⟨counted, more, calls, ⟨_, none, away⟩ | ⟨admitted, ranHere, last⟩⟩ :=
    userMove_cases packet.sv stores drops ⟨packet.meanwhile cl, []⟩ packet.msg packet.delta
  · have nothing : thoughts (handle engine cl packet).1 = [] := none
    rw [nothing, List.append_nil]
    refine ⟨ascending, fun active => ?_⟩
    rw [handle, same] at active ⊢
    obtain ⟨here, kept⟩ := packet.stays cl active
    rw [aimed, kept]
    exact behind here
  · have nothing : thoughts (handle engine cl packet).1 = [] := by
      rw [handle, calls, thoughts_append, entered_thoughts, none]
      rfl
    rw [nothing, List.append_nil]
    exact ⟨ascending, fun active => absurd active away⟩
  · have ranAll : thoughts (handle engine cl packet).1 =
        ran engine packet.sv ⟨packet.meanwhile cl, []⟩ packet.msg packet.delta := by
      rw [handle, calls, thoughts_append, entered_thoughts, ranHere]
      rfl
    have unprimed : run ≠ [] → (packet.meanwhile cl).state ≠ .csPrimed := by
      intro some primed
      have entry := between some (.svClientEnterWorld ((usercmdsOf engine cl packet).headD .null)) (by
        rw [handle, calls, entered_primed engine packet.sv _ packet.msg packet.delta primed]
        simp [usercmdsOf])
      simp [isEntry] at entry
    have before := behind.start admitted.2 unprimed
    rw [ranAll]
    constructor
    · refine List.pairwise_append.mpr ⟨ascending, pairwise_records _ _, ?_⟩
      intro a earlier b later
      exact lt_of_le_of_lt (before a earlier) (mem_ran engine packet.sv later).1
    · intro _ cmd member
      rw [handle, last]
      rcases List.mem_append.mp member with earlier | later
      · exact le_trans (before cmd earlier) (le_floorAfter _ _)
      · exact le_floorAfter_of_mem_records later

omit stores drops

/-- The usercmds that a run of packets gives to `SV_ClientThink`. -/
def thoughtsOf (entries : List (Packet Msg × List Call)) : List Usercmd :=
  entries.flatMap fun entry => thoughts entry.2

/-- The packet put the client into the world. -/
def PutsIn (entry : Packet Msg × List Call) : Prop := entry.2.any isEntry = true

instance (entry : Packet Msg × List Call) : Decidable (PutsIn entry) := inferInstanceAs (Decidable (_ = _))

/-- What holds of the entries of a run and the client after them, if no entry but the first put the client into the
world. -/
def InOrder (past : List (Packet Msg × List Call)) (cl : Client) : Prop :=
  (∀ entry ∈ past.tail, ¬ PutsIn entry) →
    (thoughtsOf past).Pairwise (fun a b => time a < time b) ∧ Behind (thoughtsOf past) cl

theorem inOrder_start (cl : Client) : InOrder ([] : List (Packet Msg × List Call)) cl := by
  intro _
  exact ⟨List.Pairwise.nil, fun _ cmd member => absurd member (List.not_mem_nil)⟩

theorem inOrder_step (stores : Stores engine) (drops : Drops engine) (past : List (Packet Msg × List Call))
    (cl : Client) (packet : Packet Msg) (ordered : InOrder past cl) :
    InOrder (past ++ [(packet, (handle engine cl packet).1)]) (handle engine cl packet).2 := by
  intro between
  have parts : thoughtsOf (past ++ [(packet, (handle engine cl packet).1)]) =
      thoughtsOf past ++ thoughts (handle engine cl packet).1 := by simp [thoughtsOf]
  rw [parts]
  cases past with
  | nil =>
    obtain ⟨ascending, behind⟩ := inOrder_start cl (fun _ member => absurd member (List.not_mem_nil))
    exact handle_keeps stores drops packet ascending behind fun some => absurd rfl some
  | cons first rest =>
    obtain ⟨ascending, behind⟩ := ordered fun entry member => between entry (List.mem_append_left _ member)
    refine handle_keeps stores drops packet ascending behind fun _ call member => ?_
    have here := between _ (List.mem_append_right rest List.mem_cons_self)
    rw [PutsIn, List.any_eq_true] at here
    exact Bool.eq_false_iff.mpr fun entry => here ⟨call, member, entry⟩

/-- Over the packets between two entries, the times given to `SV_ClientThink` ascend strictly, and every usercmd run is
justified by its packet. -/
theorem usercmds_in_order (stores : Stores engine) (drops : Drops engine) (cl : Client) (packets : List (Packet Msg))
    (between : ∀ entry ∈ (trace (handle engine) cl packets).tail, ¬ PutsIn entry) :
    (thoughtsOf (trace (handle engine) cl packets)).Pairwise (fun a b => a.serverTime < b.serverTime) ∧
      ∀ before packet after, packets = before ++ packet :: after →
        ∀ cmd ∈ thoughts (handle engine (final (handle engine) cl before) packet).1,
          Justified engine (final (handle engine) cl before) packet cmd := by
  constructor
  · have kept := trace_keeps (handle engine) InOrder (inOrder_step stores drops) [] cl packets (inOrder_start cl)
    exact (kept between).1.imp Int32.lt_iff_toInt_lt.mpr
  · intro before packet after _
    exact handle_justified stores drops (final (handle engine) cl before) packet

/-- An engine with another way to read a usercmd and to put a client into the world. -/
def moving (engine : Engine Msg) (readUsercmd : Msg → Int32 → Usercmd → Usercmd × Msg)
    (enterWorld : Client → Usercmd → Client) : Engine Msg :=
  { engine with msgReadDeltaUsercmdKey := readUsercmd, svClientEnterWorld := enterWorld }

/-- A packet as the count and the times of its usercmds. -/
def timesEngine : Engine (List Int32) :=
  moving numbersEngine (fun msg _ oldcmd => ({ oldcmd with serverTime := msg.headD 0 }, msg.tail))
    fun cl cmd => { cl with state := .csActive, lastUsercmd := cmd }

def packetOf (msg : List Int32) : Packet (List Int32) where
  meanwhile cl := cl
  stays _ active := ⟨active, rfl⟩
  sv := sampleServer
  msg := msg
  delta := true

/-- The first packet puts the client into the world; the others repeat usercmds, and one goes back in time. -/
def repeatingPackets : List (Packet (List Int32)) :=
  [packetOf [3, 100, 110, 120], packetOf [3, 110, 120, 130], packetOf [2, 140, 125], packetOf [33, 200]]

def primedClient : Client := { sampleClient with state := .csPrimed }

theorem usercmds_in_order_repeating :
    (thoughtsOf (trace (handle timesEngine) primedClient repeatingPackets)).Pairwise
      (fun a b => a.serverTime < b.serverTime) :=
  (@usercmds_in_order _ timesEngine (fun _ _ => rfl) (fun _ _ => ClientState.noConfusion) primedClient
    repeatingPackets (by decide)).1

example : (thoughtsOf (trace (handle timesEngine) primedClient repeatingPackets)).map Usercmd.serverTime =
    [110, 120, 130] := by decide

end YbeProxy.UsercmdOrder
