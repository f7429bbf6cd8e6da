import Mathlib.Data.List.Chain
import YbeProxy.NetRuns

/-!
# Windows of a second

A packet closes the window a second after the last one that did. The `int` clock wraps, and the start of the first
window is a zero that was never a time: with a negative clock it lies in the future.
-/

namespace YbeProxy.Windows
open YbeProxy.ClientMessage YbeProxy.UsercmdOrder YbeProxy.NetStatus YbeProxy.NetRuns YbeProxy.Runs

variable {F : Type} (floats : Floats F) (simulateClient : Int32 → Int32 → Int32 → F)

/-! ## The start of the window -/

/-- The `windowStart` test, of the packet that comes at this time. -/
def Closes (status : ClientNetStatus F) (now : Int32) : Prop := ¬now - status.estimate.windowStart < 1000

instance (status : ClientNetStatus F) (now : Int32) : Decidable (Closes status now) := inferInstanceAs (Decidable (¬_))

theorem closeWindow_windowStart (svFps now : Int32) (status : ClientNetStatus F) :
    (closeWindow floats simulateClient svFps now status).estimate.windowStart = now := by
  obtain ⟨_, _, _, _, _, _, _, same, _⟩ := closeWindow_reopened floats simulateClient svFps now status
  rw [same]
  rfl

theorem samples_windowStart (clock : ContinuousClock F) (ack count now : Int32) (lastUsercmd : Usercmd)
    (cmds : List Usercmd) (e : NetEstimate F) :
    (sampleNewest floats clock lastUsercmd cmds now (samplePacket count now (sampleRoundTrip ack now e))).windowStart =
      e.windowStart := by
  have trip : (sampleRoundTrip ack now e).windowStart = e.windowStart := by
    simp only [sampleRoundTrip]
    repeat' split
    all_goals rfl
  simp only [sampleNewest, sampleFrame]
  repeat' split
  all_goals exact trip

theorem packetReceived_windowStart (clock : ContinuousClock F) (svFps now : Int32) (cl : Client) (cmds : List Usercmd)
    (status : ClientNetStatus F) :
    (packetReceived floats simulateClient clock svFps now cl cmds status).estimate.windowStart =
      if Closes status now then now else status.estimate.windowStart := by
  have start := samples_windowStart floats clock cl.messageAcknowledge (newCmds cl.lastUsercmd cmds) now cl.lastUsercmd
    cmds status.estimate
  simp only [packetReceived, start]
  by_cases early : now - status.estimate.windowStart < 1000
  · have stays : ¬Closes status now := not_not.mpr early
    rw [if_pos early, if_neg stays]
    exact start
  · have closes : Closes status now := early
    rw [if_neg early, if_pos closes]
    exact closeWindow_windowStart floats simulateClient svFps now _

theorem snapshotSent_windowStart (clock : ContinuousClock F) (state : ClientState)
    (outgoingSequence svsTime now : Int32) (e : NetEstimate F) :
    (snapshotSent floats clock state outgoingSequence svsTime now e).windowStart = e.windowStart := by
  simp only [snapshotSent]
  repeat' split
  all_goals rfl

/-- The start of the window, from the times of the packets alone. -/
def startAfter (events : List (NetEvent F)) : Int32 :=
  events.foldl (fun start event => match event with
    | .sent _ _ => start
    | .received _ packet => if packet.now - start < 1000 then start else packet.now) 0

theorem netRun_windowStart (events : List (NetEvent F)) :
    (netRun floats simulateClient events).estimate.windowStart = startAfter events := by
  induction events using List.reverseRecOn with
  | nil => rfl
  | append_singleton events event hypothesis =>
    rw [netRun_concat, startAfter, List.foldl_concat, ← startAfter, ← hypothesis]
    cases event with
    | sent clock message => exact snapshotSent_windowStart floats clock _ _ _ _ _
    | received clock packet =>
      refine (packetReceived_windowStart floats simulateClient _ _ _ _ _ _).trans ?_
      exact ite_not _ _ _

/-! ## Calls in time -/

/-- A call of `PacketReceived`, at a time that never wraps. -/
structure Arrival (F : Type) where
  time : ℤ
  clock : ContinuousClock F
  svFps : Int32
  cl : Client
  cmds : List Usercmd

/-- `Sys_Milliseconds`, for any time at which the clock was zero. -/
def Arrival.word (call : Arrival F) : Int32 := .ofInt call.time

def Arrival.event (call : Arrival F) : NetEvent F := .received call.clock ⟨call.svFps, call.word, call.cl, call.cmds⟩

/-- Consecutive calls are less than 2^31 - 1000 ms apart. -/
def Steady (calls : List (Arrival F)) : Prop :=
  calls.IsChain fun a b => a.time ≤ b.time ∧ b.time - a.time < 2 ^ 31 - 1000

instance (calls : List (Arrival F)) : Decidable (Steady calls) := inferInstanceAs (Decidable (List.IsChain _ _))

def afterCalls (calls : List (Arrival F)) : ClientNetStatus F :=
  netRun floats simulateClient (calls.map Arrival.event)

/-- A call of the span closes the window. -/
def ClosesIn (before span : List (Arrival F)) : Prop :=
  ∃ early call late, span = early ++ call :: late ∧ Closes (afterCalls floats simulateClient (before ++ early)) call.word

/-- A call closes the window in every span of a second from one call to another. -/
def WindowsClose (calls : List (Arrival F)) : Prop :=
  ∀ before first middle last after, calls = before ++ first :: (middle ++ last :: after) →
    1000 ≤ last.time - first.time → ClosesIn floats simulateClient before (first :: (middle ++ [last]))

/-- The clock is not negative at the first call, or at least 1000 at the first one that is a second later. -/
def StartsInTime : List (Arrival F) → Prop
  | [] => True
  | first :: rest =>
    0 ≤ first.word.toInt ∨
      ∀ late ∈ rest.find? fun call => decide (1000 ≤ call.time - first.time), 1000 ≤ late.word.toInt

theorem afterCalls_concat (calls : List (Arrival F)) (call : Arrival F) :
    (afterCalls floats simulateClient (calls ++ [call])).estimate.windowStart =
      if Closes (afterCalls floats simulateClient calls) call.word then call.word
      else (afterCalls floats simulateClient calls).estimate.windowStart := by
  rw [afterCalls, List.map_append, List.map_singleton, netRun_concat]
  exact packetReceived_windowStart floats simulateClient _ _ _ _ _ _

/-! ## The clock and the times -/

theorem word_toInt (call : Arrival F) : call.word.toInt = call.time.bmod (2 ^ 32) := Int32.toInt_ofInt

/-- The clock of a later call, where it did not wrap since. -/
theorem word_later (first call : Arrival F) (later : first.time ≤ call.time)
    (fits : first.word.toInt + (call.time - first.time) < 2 ^ 31) :
    call.word.toInt = first.word.toInt + (call.time - first.time) := by
  rw [word_toInt first, Int.bmod_def] at fits ⊢
  rw [word_toInt call, Int.bmod_def]
  split at fits <;> split <;> omega

/-- Within 2^31 ms after a closed window, the test is that of the time since. -/
theorem closes_after_iff {status : ClientNetStatus F} {start call : Arrival F}
    (known : status.estimate.windowStart = start.word) (later : start.time ≤ call.time)
    (soon : call.time - start.time < 2 ^ 31) : Closes status call.word ↔ 1000 ≤ call.time - start.time := by
  have second : (1000 : Int32).toInt = 1000 := rfl
  rw [Closes, known, Int32.not_lt, Int32.le_iff_toInt_le, second, Int32.toInt_sub, word_toInt, word_toInt]
  rw [← Int.sub_bmod, Int.bmod_eq_of_le (by omega) (by omega)]

/-- Before any window was closed, it is that of the clock. -/
theorem closes_first_iff {status : ClientNetStatus F} (zero : status.estimate.windowStart = 0) (now : Int32) :
    Closes status now ↔ 1000 ≤ now.toInt := by
  have second : (1000 : Int32).toInt = 1000 := rfl
  rw [Closes, zero, Int32.sub_zero, Int32.not_lt, Int32.le_iff_toInt_le, second]

/-- No call closed a window yet. -/
structure Quiet (calls : List (Arrival F)) : Prop where
  words : ∀ call ∈ calls, call.word.toInt < 1000
  zero : (afterCalls floats simulateClient calls).estimate.windowStart = 0

/-- The last window was closed by a call that is less than a second before the last one. -/
structure Closed (calls : List (Arrival F)) (start : Arrival F) : Prop where
  nonempty : calls ≠ []
  known : (afterCalls floats simulateClient calls).estimate.windowStart = start.word
  recent : ∀ last ∈ calls.getLast?, start.time ≤ last.time ∧ last.time - start.time < 1000

theorem steady_concat {calls : List (Arrival F)} {call : Arrival F} :
    Steady (calls ++ [call]) ↔
      Steady calls ∧ ∀ last ∈ calls.getLast?, last.time ≤ call.time ∧ call.time - last.time < 2 ^ 31 - 1000 := by
  rw [Steady, List.isChain_append]
  simp [Steady]

variable {floats simulateClient}

/-- While the clock is below 1000 from the start, no call closes a window. -/
theorem quiet_of_words {calls : List (Arrival F)} (words : ∀ call ∈ calls, call.word.toInt < 1000) :
    Quiet floats simulateClient calls := by
  induction calls using List.reverseRecOn with
  | nil => exact ⟨words, rfl⟩
  | append_singleton calls call hypothesis =>
    have zero := (hypothesis fun earlier member => words earlier (List.mem_append_left _ member)).zero
    have low := words call (List.mem_append_right _ (List.mem_singleton_self call))
    have stays : ¬Closes (afterCalls floats simulateClient calls) call.word := by
      rw [closes_first_iff zero]
      omega
    refine ⟨words, ?_⟩
    rw [afterCalls_concat, if_neg stays]
    exact zero

/-- After a call that closes nothing, the last window that was closed still is less than a second old. -/
theorem closed_concat {calls : List (Arrival F)} {call start : Arrival F} (steady : Steady (calls ++ [call]))
    (closed : Closed floats simulateClient calls start)
    (stays : ¬Closes (afterCalls floats simulateClient calls) call.word) :
    Closed floats simulateClient (calls ++ [call]) start := by
  have last := List.getLast?_eq_some_getLast closed.nonempty
  obtain ⟨later, recent⟩ := closed.recent _ last
  obtain ⟨after, soon⟩ := (steady_concat.mp steady).2 _ last
  rw [closes_after_iff closed.known (by omega) (by omega)] at stays
  refine ⟨by simp, ?_, ?_⟩
  · rw [afterCalls_concat, if_neg, closed.known]
    rw [closes_after_iff closed.known (by omega) (by omega)]
    exact stays
  · intro call' same
    obtain rfl : call = call' := by simpa using same
    omega

theorem quiet_or_closed {calls : List (Arrival F)} (steady : Steady calls) :
    Quiet floats simulateClient calls ∨ ∃ start, Closed floats simulateClient calls start := by
  induction calls using List.reverseRecOn with
  | nil => exact .inl (quiet_of_words (by simp))
  | append_singleton calls call hypothesis =>
    by_cases closes : Closes (afterCalls floats simulateClient calls) call.word
    · refine .inr ⟨call, by simp, ?_, ?_⟩
      · rw [afterCalls_concat, if_pos closes]
      · intro last same
        obtain rfl : call = last := by simpa using same
        omega
    · rcases hypothesis (steady_concat.mp steady).1 with quiet | ⟨start, closed⟩
      · rw [closes_first_iff quiet.zero] at closes
        refine .inl (quiet_of_words ?_)
        intro earlier member
        rcases List.mem_append.mp member with before | now
        · exact quiet.words earlier before
        · obtain rfl := List.mem_singleton.mp now
          omega
      · exact .inr ⟨start, closed_concat steady closed closes⟩

/-- In a span where no call closes a window, what was known before it stays known. -/
theorem closesIn_or {before span : List (Arrival F)} (steady : Steady (before ++ span)) :
    ClosesIn floats simulateClient before span ∨
      (Quiet floats simulateClient before → Quiet floats simulateClient (before ++ span)) ∧
        ∀ start, Closed floats simulateClient before start → Closed floats simulateClient (before ++ span) start := by
  induction span using List.reverseRecOn with
  | nil =>
    rw [List.append_nil]
    exact .inr ⟨id, fun _ => id⟩
  | append_singleton span call hypothesis =>
    rw [← List.append_assoc] at steady ⊢
    rcases hypothesis (steady_concat.mp steady).1 with ⟨early, closer, late, rfl, closes⟩ | ⟨quiets, closed⟩
    · exact .inl ⟨early, closer, late ++ [call], by simp, closes⟩
    by_cases closes : Closes (afterCalls floats simulateClient (before ++ span)) call.word
    · exact .inl ⟨span, call, [], rfl, closes⟩
    refine .inr ⟨fun quiet => ?_, fun start known => closed_concat steady (closed start known) closes⟩
    have until_now := quiets quiet
    rw [closes_first_iff until_now.zero] at closes
    refine quiet_of_words ?_
    intro earlier member
    rcases List.mem_append.mp member with before | now
    · exact until_now.words earlier before
    · obtain rfl := List.mem_singleton.mp now
      omega

theorem steady_times {calls : List (Arrival F)} (steady : Steady calls) :
    calls.Pairwise fun a b => a.time ≤ b.time := by
  have chain : calls.IsChain fun a b => a.time ≤ b.time := steady.imp fun _ _ gap => gap.1
  exact List.isChain_iff_pairwise.mp chain

/-- While no window is closed the clock did not wrap since the first call. -/
theorem quiet_word {first : Arrival F} {rest : List (Arrival F)} (steady : Steady (first :: rest))
    (words : ∀ call ∈ first :: rest, call.word.toInt < 1000) :
    ∀ call ∈ first :: rest, call.word.toInt = first.word.toInt + (call.time - first.time) := by
  induction rest using List.reverseRecOn with
  | nil => simp
  | append_singleton rest call hypothesis =>
    rw [← List.cons_append] at steady words ⊢
    obtain ⟨before, gap⟩ := steady_concat.mp steady
    have known := hypothesis before fun earlier member => words earlier (List.mem_append_left _ member)
    intro earlier member
    rcases List.mem_append.mp member with inside | now
    · exact known earlier inside
    · obtain rfl := List.mem_singleton.mp now
      have last := List.getLast?_eq_some_getLast (List.cons_ne_nil first rest)
      have place := List.getLast_mem (List.cons_ne_nil first rest)
      obtain ⟨after, soon⟩ := gap _ last
      have clock := known _ place
      have low := words _ (List.mem_append_left _ place)
      have later := List.rel_of_pairwise_cons (steady_times steady) (List.mem_append_right rest now)
      exact word_later first earlier later (by omega)

/-- Where the clock starts in time, only a call of the first second may be at a clock below 1000. -/
theorem quiet_soon {head : Arrival F} {seen after : List (Arrival F)} (steady : Steady (head :: seen))
    (starts : StartsInTime (head :: (seen ++ after))) (words : ∀ call ∈ head :: seen, call.word.toInt < 1000) :
    ∀ last ∈ head :: seen, last.time - head.time < 1000 := by
  intro last member
  by_contra second
  have inside : last ∈ seen := by
    rcases List.mem_cons.mp member with rfl | inside
    · omega
    · exact inside
  rcases starts with positive | begins
  · have clock := quiet_word steady words last member
    have low := words last member
    omega
  · cases found : seen.find? fun call => decide (1000 ≤ call.time - head.time) with
    | none =>
      have never := List.find?_eq_none.mp found last inside
      rw [decide_eq_true_iff] at never
      omega
    | some late =>
      have high := begins late (by rw [List.find?_append, found]; rfl)
      have low := words late (List.mem_cons_of_mem head (List.mem_of_find?_eq_some found))
      omega

variable (floats simulateClient)

/-- Every span of a second holds a call that closes the window exactly if the clock starts in time: a client that comes
to a server with a negative clock closes no window until the clock has passed zero. -/
theorem windowsClose_iff (calls : List (Arrival F)) (steady : Steady calls) :
    WindowsClose floats simulateClient calls ↔ StartsInTime calls := by
  cases calls with
  | nil => simp [WindowsClose, StartsInTime]
  | cons head rest =>
    constructor
    · intro close
      by_contra late
      simp only [StartsInTime, not_or, not_forall, not_le] at late
      obtain ⟨negative, call, found, low⟩ := late
      obtain ⟨second, pre, post, rfl, early⟩ := List.find?_eq_some_iff_append.mp found
      have times := steady_times steady
      obtain ⟨before, closer, after, split, closes⟩ := close [] head pre call post rfl (of_decide_eq_true second)
      have words : ∀ call' ∈ head :: (pre ++ [call]), call'.word.toInt < 1000 := by
        intro other member
        rcases List.mem_cons.mp member with rfl | member
        · omega
        rcases List.mem_append.mp member with inside | now
        · have later := List.rel_of_pairwise_cons times (List.mem_append_left _ inside)
          have soon := early other inside
          simp only [Bool.not_eq_true', decide_eq_false_iff_not] at soon
          rw [word_later head other later (by omega)]
          omega
        · obtain rfl := List.mem_singleton.mp now
          exact low
      rw [split] at words
      have quiet : Quiet floats simulateClient before :=
        quiet_of_words fun other member => words other (List.mem_append_left _ member)
      have stays := words closer (List.mem_append_right _ List.mem_cons_self)
      rw [List.nil_append, closes_first_iff quiet.zero] at closes
      omega
    · intro starts before first middle last after split second
      rw [show first :: (middle ++ last :: after) = first :: (middle ++ [last]) ++ after by simp,
        ← List.append_assoc] at split
      rw [split] at steady
      have seen := steady.left_of_append
      have times := steady_times seen
      rcases closesIn_or seen with closes | ⟨quiets, closed⟩
      · exact closes
      exfalso
      rcases (quiet_or_closed seen.left_of_append : Quiet floats simulateClient _ ∨ _) with quiet | ⟨start, known⟩
      · have words := (quiets quiet).words
        cases before with
        | nil =>
          obtain ⟨rfl, rfl⟩ := List.cons.inj split
          have soon := quiet_soon seen starts words last (by simp)
          omega
        | cons earliest before =>
          obtain ⟨rfl, rfl⟩ := List.cons.inj split
          have soon := quiet_soon seen starts words last (by simp)
          have order := List.rel_of_pairwise_cons times (List.mem_append_right before List.mem_cons_self)
          omega
      · obtain ⟨later, _⟩ := known.recent _ (List.getLast?_eq_some_getLast known.nonempty)
        have order := (List.pairwise_append.mp times).2.2 _ (List.getLast_mem known.nonempty) first List.mem_cons_self
        rw [show before ++ first :: (middle ++ [last]) = (before ++ first :: middle) ++ [last] by simp] at closed
        obtain ⟨_, recent⟩ := (closed start known).recent last List.getLast?_concat
        omega

def callAt (time : ℤ) : Arrival ℤ := ⟨time, ⟨0, false⟩, 20, sampleClient, []⟩

theorem windowsClose_wrapping :
    WindowsClose wholeFloats (fun _ _ _ => 0) [callAt 2147483000, callAt 2147484000, callAt 2147485000] :=
  (windowsClose_iff wholeFloats (fun _ _ _ => 0) [callAt 2147483000, callAt 2147484000, callAt 2147485000]
    (by decide)).mpr (.inl (by decide))

/-- A client that comes while the clock is negative: no window of its first two seconds is closed. -/
theorem negative_clock_closes_none :
    Steady [callAt (-5000), callAt (-3000)] ∧
      ¬WindowsClose wholeFloats (fun _ _ _ => 0) [callAt (-5000), callAt (-3000)] := by
  refine ⟨by decide, ?_⟩
  intro close
  obtain ⟨early, call, late, split, closes⟩ := close [] (callAt (-5000)) [] (callAt (-3000)) [] rfl (by decide)
  have words : ∀ call ∈ [callAt (-5000), callAt (-3000)], call.word.toInt < 1000 := by decide
  rw [show [callAt (-5000), callAt (-3000)] = early ++ call :: late from split] at words
  have quiet : Quiet wholeFloats (fun _ _ _ => 0) early :=
    quiet_of_words fun other member => words other (List.mem_append_left _ member)
  rw [List.nil_append, closes_first_iff quiet.zero] at closes
  exact absurd (words call (List.mem_append_right _ List.mem_cons_self)) (by omega)

end YbeProxy.Windows
