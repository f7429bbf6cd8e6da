import YbeProxy.Challenge
import YbeProxy.OldestSlot
import Mathlib.Data.Int.Order.Basic
import Mathlib.Data.List.Induction

/-!
# The table of challenges

`Admit` of `Engine/Challenge.cpp` on `svs.challenges`: a connect with a valid challenge gets an entry where the
original `SV_DirectConnect` looks it up, in place of the oldest one.
-/

namespace YbeProxy.ChallengeTable
open YbeProxy.Strings YbeProxy.Addresses YbeProxy.Infostrings YbeProxy.Challenge YbeProxy.Runs YbeProxy.OldestSlot

def maxChallenges : Nat := 1024

/-- `challenge_t`. -/
structure Entry where
  adr : Netadr
  challenge : Int32
  time : Int32
  pingTime : Int32
  firstTime : Int32
  connected : Bool
  deriving DecidableEq

/-- `svs.challenges`. -/
structure Table where
  entries : List Entry
  full : entries.length = maxChallenges
  deriving DecidableEq

/-- A connect: `svs.time`, the sender, `Cmd_Argv(1)`, and `sv_minPing` rounded up. -/
structure Connect where
  time : Int32
  sender : Netadr
  userinfo : CString
  minPing : Int32

def challengeOf (connect : Connect) : Int32 :=
  .ofInt (atoi (infoValueForKey connect.userinfo "challenge".toList))

/-- The test of an entry, here and in the original. `compareBaseAdr` is `NET_CompareBaseAdr`. -/
def matchesEntry (compareBaseAdr : Netadr → Netadr → Bool) (challenge : Int32) (sender : Netadr) (it : Entry) : Bool :=
  it.challenge == challenge && sender.port == it.adr.port && compareBaseAdr sender it.adr

/-- The loop of `Admit`: the first entry that matches, and the oldest one up to there. -/
def search (hit : Entry → Bool) : Nat → Nat → Int32 → List Entry → Option Nat × Nat
  | _, oldest, _, [] => (none, oldest)
  | i, oldest, oldestTime, it :: rest =>
    if hit it then (some i, oldest)
    else if it.time < oldestTime then search hit (i + 1) i it.time rest
    else search hit (i + 1) oldest oldestTime rest

def Table.set (table : Table) (i : Nat) (entry : Entry) : Table :=
  ⟨table.entries.set i entry, by rw [List.length_set, table.full]⟩

def Table.modify (table : Table) (i : Nat) (change : Entry → Entry) : Table :=
  ⟨table.entries.modify i change, by rw [List.length_modify, table.full]⟩

/-- The first entry that the original finds. -/
def Table.find (table : Table) (hit : Entry → Bool) : Option Nat := table.entries.findIdx? hit

section Admit
variable (compareBaseAdr : Netadr → Netadr → Bool) (key : Key)

/-- `Admit`, and the index of the entry that it inserts. -/
def admitFrom (table : Table) (connect : Connect) : Option Nat × Table :=
  let challenge := challengeOf connect
  let pingTime := connect.time - max 0 connect.minPing
  let first := table.entries.head?.elim 0 Entry.time
  match search (matchesEntry compareBaseAdr challenge connect.sender) 0 0 first table.entries with
  | (some i, _) => (none, table.modify i fun it => { it with pingTime := pingTime })
  | (none, oldest) =>
    if verify key connect.time challenge connect.sender then
      (some oldest, table.set oldest ⟨connect.sender, challenge, connect.time, pingTime, connect.time, false⟩)
    else (none, table)

end Admit

/-! ## One connect -/

def age (entry : Entry) : Int := entry.time.toInt

theorem search_cases {hit : Entry → Bool} {all rest : List Entry} (seen : List Entry) {oldest : Nat} {slot : Entry}
    (split : all = seen ++ rest) (missed : ∀ it ∈ seen, hit it = false) (held : all[oldest]? = some slot)
    (least : ∀ it ∈ seen, age slot ≤ age it) :
    (∃ i, (search hit seen.length oldest slot.time rest).1 = some i ∧ all.findIdx? hit = some i) ∨
      (search hit seen.length oldest slot.time rest).1 = none ∧ all.findIdx? hit = none ∧
        IsOldest age all (search hit seen.length oldest slot.time rest).2 := by
  induction rest generalizing seen oldest slot with
  | nil =>
    obtain rfl : all = seen := by rw [split, List.append_nil]
    refine Or.inr ⟨rfl, List.findIdx?_eq_none_iff.mpr missed, slot, held, least⟩
  | cons it rest hypothesis =>
    have next : all = (seen ++ [it]) ++ rest := by rw [split, List.append_assoc, List.singleton_append]
    have size : (seen ++ [it]).length = seen.length + 1 := by rw [List.length_append, List.length_singleton]
    have extend {p : Entry → Prop} (before : ∀ other ∈ seen, p other) (last : p it) : ∀ other ∈ seen ++ [it], p other :=
      List.forall_mem_append.mpr ⟨before, List.forall_mem_singleton.mpr last⟩
    cases found : hit it with
    | true =>
      have first : all.findIdx? hit = some seen.length := by
        rw [split, List.findIdx?_append, List.findIdx?_eq_none_iff.mpr missed, List.findIdx?_cons, found]
        simp
      exact Or.inl ⟨seen.length, by rw [search, if_pos found], first⟩
    | false =>
      have missedNext : ∀ other ∈ seen ++ [it], hit other = false := extend missed found
      rw [search, found, if_neg Bool.false_ne_true]
      by_cases older : it.time < slot.time
      · have here : all[seen.length]? = some it := by rw [split]; simp
        have smaller : age it < age slot := Int32.lt_iff_toInt_lt.mp older
        rw [if_pos older, ← size]
        apply hypothesis (seen ++ [it]) next missedNext here
        refine extend ?_ le_rfl
        intro other before
        exact smaller.le.trans (least other before)
      · have larger : age slot ≤ age it := by
          rw [age, age, ← Int32.le_iff_toInt_le]
          exact Int32.not_lt.mp older
        rw [if_neg older, ← size]
        exact hypothesis (seen ++ [it]) next missedNext held (extend least larger)

section Admit
variable {compareBaseAdr : Netadr → Netadr → Bool} {key : Key}

/-- The test that a connect makes of the entries. -/
def hitOf (compareBaseAdr : Netadr → Netadr → Bool) (connect : Connect) : Entry → Bool :=
  matchesEntry compareBaseAdr (challengeOf connect) connect.sender

/-- The entry that a connect inserts. -/
def entryOf (connect : Connect) : Entry :=
  ⟨connect.sender, challengeOf connect, connect.time, connect.time - max 0 connect.minPing, connect.time, false⟩

/-- Everything `Admit` does: set the ping of the entry that it finds, insert in the oldest one, or nothing. -/
theorem admitFrom_cases (compareBaseAdr : Netadr → Netadr → Bool) (key : Key) (table : Table) (connect : Connect) :
    (∃ i, table.find (hitOf compareBaseAdr connect) = some i ∧
      admitFrom compareBaseAdr key table connect = (none, table.modify i fun it =>
        { it with pingTime := connect.time - max 0 connect.minPing })) ∨
    (∃ oldest, table.find (hitOf compareBaseAdr connect) = none ∧
      verify key connect.time (challengeOf connect) connect.sender = true ∧ IsOldest age table.entries oldest ∧
      admitFrom compareBaseAdr key table connect = (some oldest, table.set oldest (entryOf connect))) ∨
    table.find (hitOf compareBaseAdr connect) = none ∧
      verify key connect.time (challengeOf connect) connect.sender = false ∧
      admitFrom compareBaseAdr key table connect = (none, table) := by
  obtain ⟨first, others, split⟩ := List.exists_cons_of_length_eq_add_one table.full
  have found := @search_cases (hitOf compareBaseAdr connect) table.entries table.entries [] 0 first rfl nofun
    (by rw [split]; rfl) nofun
  have start : table.entries.head?.elim 0 Entry.time = first.time := by rw [split]; rfl
  rw [admitFrom, start]
  simp only [Table.find]
  change (∃ i, (search (hitOf compareBaseAdr connect) 0 0 first.time table.entries).1 = some i ∧ _) ∨
    (search (hitOf compareBaseAdr connect) 0 0 first.time table.entries).1 = none ∧ _ ∧
      IsOldest age table.entries (search (hitOf compareBaseAdr connect) 0 0 first.time table.entries).2 at found
  rw [show matchesEntry compareBaseAdr (challengeOf connect) connect.sender = hitOf compareBaseAdr connect from rfl]
  generalize search (hitOf compareBaseAdr connect) 0 0 first.time table.entries = result at found
  obtain ⟨entry, oldest⟩ := result
  rcases found with ⟨i, rfl, here⟩ | ⟨rfl, none, least⟩
  · exact Or.inl ⟨i, here, rfl⟩
  · cases valid : verify key connect.time (challengeOf connect) connect.sender with
    | true => exact Or.inr (Or.inl ⟨oldest, none, rfl, least, by simp only [if_true, entryOf]⟩)
    | false => exact Or.inr (Or.inr ⟨none, rfl, by simp only [Bool.false_eq_true, if_false]⟩)

theorem map_modify {α β : Type} (l : List α) (i : Nat) {change : α → α} {view : α → β}
    (same : ∀ x, view (change x) = view x) : (l.modify i change).map view = l.map view := by
  apply List.ext_getElem?
  intro j
  rw [List.getElem?_map, List.getElem?_map, List.getElem?_modify]
  by_cases here : i = j
  · simp [here, Function.comp_def, same]
  · simp [here]

/-- A change that no test sees leaves every search as it was. -/
theorem find_modify (table : Table) (i : Nat) {change : Entry → Entry} {hit : Entry → Bool}
    (same : ∀ it, hit (change it) = hit it) : (table.modify i change).find hit = table.find hit := by
  have search (entries : List Entry) : entries.findIdx? hit = (entries.map hit).findIdx? id := by
    rw [List.findIdx?_map, Function.id_comp]
  rw [Table.find, Table.find, search, search, Table.modify, map_modify table.entries i same]

theorem find_set {table : Table} {hit : Entry → Bool} {i : Nat} {entry : Entry} (none : table.find hit = none)
    (inside : i < table.entries.length) (found : hit entry = true) : (table.set i entry).find hit = some i := by
  have missed := List.findIdx?_eq_none_iff.mp none
  apply List.findIdx?_eq_some_iff_getElem.mpr
  refine ⟨by rw [Table.set, List.length_set]; exact inside, by simp only [Table.set, List.getElem_set_self, found], ?_⟩
  intro j before
  simp only [Table.set, List.getElem_set_ne (Nat.ne_of_gt before)]
  rw [missed _ (List.getElem_mem _)]
  decide

theorem entryOf_hit (reflexive : ∀ adr, compareBaseAdr adr adr = true) (connect : Connect) :
    hitOf compareBaseAdr connect (entryOf connect) = true := by
  simp [hitOf, matchesEntry, entryOf, reflexive]

/-- A connect whose challenge no entry holds and `Verify` refuses leaves the table as it is. Any other connect changes
one entry at most, the one that the original finds next, and an entry that it takes over was one of the oldest. -/
theorem admit_agrees (compareBaseAdr : Netadr → Netadr → Bool) (key : Key)
    (reflexive : ∀ adr, compareBaseAdr adr adr = true) (table : Table) (connect : Connect) :
    let hit := hitOf compareBaseAdr connect
    let after := (admitFrom compareBaseAdr key table connect).2
    let refused := (∀ it ∈ table.entries, hit it = false) ∧
      verify key connect.time (challengeOf connect) connect.sender = false
    (refused → after = table ∧ after.find hit = none) ∧
    (¬ refused → ∃ i, after.find hit = some i ∧ (∀ j, j ≠ i → after.entries[j]? = table.entries[j]?) ∧
      ∀ old, table.entries[i]? = some old → hit old = false → ∀ other ∈ table.entries, old.time ≤ other.time) := by
  intro hit after refused
  have missed_iff : table.find hit = none ↔ ∀ it ∈ table.entries, hit it = false := List.findIdx?_eq_none_iff
  obtain ⟨i, found, result⟩ | ⟨oldest, none, valid, ⟨slot, there, least⟩, result⟩ | ⟨none, invalid, result⟩ :=
    admitFrom_cases compareBaseAdr key table connect
  · have kept : (table.modify i fun it => { it with pingTime := connect.time - max 0 connect.minPing }).find hit = _ :=
      find_modify table i fun it => rfl
    constructor
    · intro unmatched
      exact absurd ((missed_iff.mpr unmatched.1).symm.trans found) nofun
    · intro _
      have same : after = table.modify i _ := congrArg Prod.snd result
      rw [same]
      refine ⟨i, kept.trans found, ?_, ?_⟩
      · intro j other
        exact List.getElem?_modify_ne _ _ (Ne.symm other)
      · intro old here stale
        obtain ⟨inside, matching, _⟩ := List.findIdx?_eq_some_iff_getElem.mp found
        rw [List.getElem?_eq_getElem inside] at here
        rw [Option.some.inj here] at matching
        exact absurd (stale.symm.trans matching) Bool.false_ne_true
  · have inside : oldest < table.entries.length := (List.getElem?_eq_some_iff.mp there).1
    have same : after = table.set oldest (entryOf connect) := congrArg Prod.snd result
    refine ⟨fun unmatched => absurd (unmatched.2.symm.trans valid) Bool.false_ne_true, ?_⟩
    intro _
    rw [same]
    refine ⟨oldest, find_set none inside (entryOf_hit reflexive connect), ?_, ?_⟩
    · intro j other
      rw [Table.set, List.getElem?_set_ne (Ne.symm other)]
    · intro old here _ other member
      rw [there] at here
      rw [← Option.some.inj here]
      exact Int32.le_iff_toInt_le.mpr (least other member)
  · have same : after = table := congrArg Prod.snd result
    refine ⟨fun _ => ⟨same, by rw [same]; exact none⟩, ?_⟩
    intro allowed
    exact absurd ⟨missed_iff.mp none, invalid⟩ allowed

/-- The comparison of the engine for the addresses of players. -/
def sameBaseAdr (a b : Netadr) : Bool := a.type = b.type && a.ip = b.ip

/-- No challenge was answered yet. -/
def emptyTable : Table := ⟨List.replicate maxChallenges ⟨⟨.naBot, ⟨0, 0, 0, 0⟩, 0⟩, 0, 0, 0, 0, false⟩, List.length_replicate⟩

def sampleConnect : Connect := ⟨17000, samplePlayer, "\\challenge\\".toList ++ number sampleKey 16000 samplePlayer, 0⟩

theorem sampleConnect_valid :
    verify sampleKey sampleConnect.time (challengeOf sampleConnect) sampleConnect.sender = true := by decide +kernel

theorem admit_agrees_sample :
    ∃ i, (admitFrom sameBaseAdr sampleKey emptyTable sampleConnect).2.find (hitOf sameBaseAdr sampleConnect) = some i := by
  have allowed := (admit_agrees sameBaseAdr sampleKey (fun adr => by simp [sameBaseAdr]) emptyTable sampleConnect).2
  obtain ⟨i, found, _⟩ := allowed fun refused => absurd (refused.2.symm.trans sampleConnect_valid) Bool.false_ne_true
  exact ⟨i, found⟩

/-! ## Runs of connects -/

/-- An entry without its ping, which a connect sent again sets once more. -/
def unpinged (entry : Entry) : Entry := { entry with pingTime := 0 }

def slots (table : Table) : List Entry := table.entries.map unpinged

/-- `Admit` as a machine that replaces its oldest slot. -/
theorem admitFrom_replacesOldest (compareBaseAdr : Netadr → Netadr → Bool) (key : Key) :
    ReplacesOldest (admitFrom compareBaseAdr key) slots age (fun connect => connect.time.toInt) id := by
  constructor
  · intro table connect put
    obtain ⟨i, _, result⟩ | ⟨oldest, _, _, _, result⟩ | ⟨_, _, result⟩ := admitFrom_cases compareBaseAdr key table connect
    · rw [result]
      exact map_modify table.entries i fun it => rfl
    · rw [result] at put
      cases put
    · rw [result]
  · intro table connect i put
    obtain ⟨_, _, result⟩ | ⟨oldest, _, _, ⟨slot, there, least⟩, result⟩ | ⟨_, _, result⟩ :=
      admitFrom_cases compareBaseAdr key table connect
    · rw [result] at put
      cases put
    · rw [result] at put
      obtain rfl := Option.some.inj put
      refine ⟨⟨unpinged slot, by rw [slots, List.getElem?_map, there]; rfl, ?_⟩, unpinged (entryOf connect), rfl, ?_⟩
      · intro other member
        obtain ⟨entry, listed, rfl⟩ := List.mem_map.mp member
        exact least entry listed
      · rw [result, slots, slots, Table.set, List.map_set]
    · rw [result] at put
      cases put

/-- Slot `i` is the only one that the test hits. -/
def Alone (hit : Entry → Bool) (table : Table) (i : Nat) : Prop := ∀ j, table.entries[j]?.any hit = true ↔ j = i

theorem Alone.find {hit : Entry → Bool} {table : Table} {i : Nat} (alone : Alone hit table i) :
    table.find hit = some i := by
  obtain ⟨entry, here, found⟩ := (Option.any_eq_true _ _).mp ((alone i).mpr rfl)
  obtain ⟨inside, same⟩ := List.getElem?_eq_some_iff.mp here
  refine List.findIdx?_eq_some_iff_getElem.mpr ⟨inside, by rw [same]; exact found, ?_⟩
  intro j before found
  have one := (alone j).mp (by rw [List.getElem?_eq_getElem (Nat.lt_trans before inside)]; exact found)
  omega

theorem Alone.set {hit : Entry → Bool} {table : Table} {i : Nat} {entry : Entry} (none : table.find hit = none)
    (inside : i < table.entries.length) (found : hit entry = true) : Alone hit (table.set i entry) i := by
  have missed := List.findIdx?_eq_none_iff.mp none
  intro j
  by_cases here : i = j
  · subst here
    simp [Table.set, inside, found]
  · refine ⟨?_, fun same => absurd same.symm here⟩
    rw [Table.set, List.getElem?_set_ne here, Option.any_eq_true]
    rintro ⟨it, there, matching⟩
    rw [missed it (List.mem_of_getElem? there)] at matching
    exact absurd matching Bool.false_ne_true

/-- A connect that keeps slot `i` adds no second entry that the test hits: it would have found the one of slot `i`. -/
theorem Alone.connect {hit : Entry → Bool} {table : Table} {i : Nat} {connect : Connect} (alone : Alone hit table i)
    (pingless : ∀ it pingTime, hit { it with pingTime := pingTime } = hit it)
    (agrees : ∀ it, hit it = true → hit (entryOf connect) = true → hitOf compareBaseAdr connect it = true)
    (kept : (admitFrom compareBaseAdr key table connect).2.entries[i]?.any hit = true) :
    Alone hit (admitFrom compareBaseAdr key table connect).2 i := by
  obtain ⟨k, _, result⟩ | ⟨oldest, none, _, ⟨_, there, _⟩, result⟩ | ⟨_, _, result⟩ :=
    admitFrom_cases compareBaseAdr key table connect
  · have views := map_modify table.entries k fun it => pingless it (connect.time - max 0 connect.minPing)
    rw [result]
    intro j
    rw [← alone j]
    have view := congrArg (fun tests : List Bool => tests[j]?.any id) views
    simpa [Table.modify, Option.any_map] using view
  · rw [result] at kept ⊢
    have stranger : hit (entryOf connect) = false := by
      by_contra found
      obtain ⟨entry, here, matching⟩ := (Option.any_eq_true _ _).mp ((alone i).mpr rfl)
      have hits := agrees entry matching (by simpa using found)
      rw [List.findIdx?_eq_none_iff.mp none entry (List.mem_of_getElem? here)] at hits
      exact absurd hits Bool.false_ne_true
    intro j
    constructor
    · intro found
      by_cases here : oldest = j
      · subst here
        simp only [Table.set, List.getElem?_set_self (List.getElem?_eq_some_iff.mp there).1, Option.any_some, stranger]
          at found
        exact absurd found Bool.false_ne_true
      · simp only [Table.set, List.getElem?_set_ne here] at found
        exact (alone j).mp found
    · rintro rfl
      exact kept
  · rw [result]
    exact alone

/-- The kept value of a slot still passes a test that does not see pings. -/
theorem any_of_slots {hit : Entry → Bool} {table : Table} {i : Nat} {entry : Entry}
    (pingless : ∀ it pingTime, hit { it with pingTime := pingTime } = hit it)
    (held : (slots table)[i]? = some (unpinged entry)) (found : hit entry = true) :
    table.entries[i]?.any hit = true := by
  rw [slots, List.getElem?_map, Option.map_eq_some_iff] at held
  obtain ⟨it, here, same⟩ := held
  have test : hit it = hit entry := by rw [← pingless it 0, ← pingless entry 0]; exact congrArg hit same
  rw [here, Option.any_some, test, found]

theorem hitOf_pingless (connect : Connect) (it : Entry) (pingTime : Int32) :
    hitOf compareBaseAdr connect { it with pingTime := pingTime } = hitOf compareBaseAdr connect it := rfl

theorem hitOf_agrees (sameBase : ∀ a b, compareBaseAdr a b = true ↔ a.type = b.type ∧ a.ip = b.ip)
    {connect other : Connect} {it : Entry} (held : hitOf compareBaseAdr connect it = true)
    (entered : hitOf compareBaseAdr connect (entryOf other) = true) : hitOf compareBaseAdr other it = true := by
  simp only [hitOf, matchesEntry, entryOf, Bool.and_eq_true, beq_iff_eq, sameBase] at held entered ⊢
  obtain ⟨⟨challenge, port⟩, type, ip⟩ := held
  obtain ⟨⟨challenge', port'⟩, type', ip'⟩ := entered
  exact ⟨⟨challenge.trans challenge'.symm, port'.symm.trans port⟩, type'.symm.trans type, ip'.symm.trans ip⟩

/-- Along a run that leaves room for every entry of `t` or later, the entry of slot `i` stays the only one of its kind. -/
theorem Alone.final (key : Key) {table : Table} {connect : Connect} {i : Nat} (after : List Connect)
    (sameBase : ∀ a b, compareBaseAdr a b = true ↔ a.type = b.type ∧ a.ip = b.ip)
    (since : ∀ later ∈ after, connect.time.toInt ≤ later.time.toInt)
    (room : young age connect.time.toInt (slots table) +
      insertions (fun connect : Connect => connect.time.toInt) id connect.time.toInt
        (trace (admitFrom compareBaseAdr key) table after) ≤ (slots table).length)
    (held : (slots table)[i]? = some (unpinged (entryOf connect)))
    (alone : Alone (hitOf compareBaseAdr connect) table i) :
    Alone (hitOf compareBaseAdr connect) (final (admitFrom compareBaseAdr key) table after) i := by
  have reflexive (adr : Netadr) : compareBaseAdr adr adr = true := (sameBase adr adr).mpr ⟨rfl, rfl⟩
  have machine := admitFrom_replacesOldest compareBaseAdr key
  induction after using List.reverseRecOn with
  | nil => exact alone
  | append_singleton before last hypothesis =>
    have kept := any_of_slots (hitOf_pingless connect) (machine.slot_kept since room held (Int.le_refl _))
      (entryOf_hit reflexive connect)
    rw [trace_append, insertions_append] at room
    have earlier := hypothesis (fun later member => since later (List.mem_append_left _ member)) (by omega)
    rw [final_append] at kept ⊢
    exact earlier.connect (hitOf_pingless connect) (fun it => hitOf_agrees sameBase) kept

/-- A connect that `Admit` let in at `t`, on a table of older entries, stays the one that the original finds for its
address and challenge while no more than `MAX_CHALLENGES` entries in all come in at `t` or later. -/
theorem waiting_entry_found (compareBaseAdr : Netadr → Netadr → Bool) (key : Key)
    (sameBase : ∀ a b, compareBaseAdr a b = true ↔ a.type = b.type ∧ a.ip = b.ip) (table : Table)
    (before after : List Connect) (connect : Connect) (i : Nat)
    (ordered : (before ++ connect :: after).Pairwise fun a b => a.time ≤ b.time)
    (older : ∀ it ∈ table.entries, it.time < connect.time)
    (inserted : (admitFrom compareBaseAdr key (final (admitFrom compareBaseAdr key) table before) connect).1 = some i)
    (few : insertions (fun connect : Connect => connect.time.toInt) id connect.time.toInt
      (trace (admitFrom compareBaseAdr key) table (before ++ connect :: after)) ≤ maxChallenges) :
    let later := final (admitFrom compareBaseAdr key) table (before ++ connect :: after)
    later.find (hitOf compareBaseAdr connect) = some i ∧
      ∀ stray, (∀ it ∈ later.entries, hitOf compareBaseAdr stray it = false) →
        verify key stray.time (challengeOf stray) stray.sender = false →
        (admitFrom compareBaseAdr key later stray).2 = later := by
  intro later
  have reflexive (adr : Netadr) : compareBaseAdr adr adr = true := (sameBase adr adr).mpr ⟨rfl, rfl⟩
  have machine := admitFrom_replacesOldest compareBaseAdr key
  refine ⟨?_, fun stray unmatched invalid => ((admit_agrees compareBaseAdr key reflexive later stray).1
    ⟨unmatched, invalid⟩).1⟩
  have old : young age connect.time.toInt (slots table) = 0 := by
    apply List.countP_eq_zero.mpr
    intro slot member
    obtain ⟨it, listed, rfl⟩ := List.mem_map.mp member
    have before := Int32.lt_iff_toInt_lt.mp (older it listed)
    intro recent
    exact Int.not_le.mpr before (of_decide_eq_true recent)
  have early := machine.young_final_le connect.time.toInt table before
  have size := machine.length_final table before
  have whole : (slots table).length = maxChallenges := by rw [slots, List.length_map, table.full]
  have later_eq : later = final (admitFrom compareBaseAdr key) (final (admitFrom compareBaseAdr key) table before)
      (connect :: after) := final_append (admitFrom compareBaseAdr key) table before (connect :: after)
  rw [trace_append, insertions_append, trace, insertions_cons] at few
  rw [later_eq]
  clear_value later
  generalize final (admitFrom compareBaseAdr key) table before = start at inserted few early size
  obtain ⟨_, _, result⟩ | ⟨oldest, none, _, least, result⟩ | ⟨_, _, result⟩ := admitFrom_cases compareBaseAdr key start connect
  · rw [result] at inserted
    cases inserted
  · have last : ∀ event ∈ after, connect.time.toInt ≤ event.time.toInt := by
      intro event member
      obtain ⟨_, rest, _⟩ := List.pairwise_append.mp ordered
      exact Int32.le_iff_toInt_le.mp ((List.pairwise_cons.mp rest).1 event member)
    have one := machine.young_step_le connect.time.toInt start connect
    have same := machine.length_step start connect
    rw [result] at inserted one same few
    obtain rfl := Option.some.inj inserted
    simp only [id, Option.isSome_some, Int.le_refl, and_self, if_true] at one same few
    have held : (slots (start.set oldest (entryOf connect)))[oldest]? = some (unpinged (entryOf connect)) := by
      rw [slots, Table.set, List.map_set, List.getElem?_set_self (by rw [List.length_map]; exact least.lt_length)]
    have alone := Alone.set none least.lt_length (entryOf_hit reflexive connect)
    have stays := Alone.final key after sameBase last (by omega) held alone
    rw [final, result]
    exact stays.find
  · rw [result] at inserted
    cases inserted

theorem waiting_entry_found_sample :
    (final (admitFrom sameBaseAdr sampleKey) emptyTable [sampleConnect, sampleConnect]).find
      (hitOf sameBaseAdr sampleConnect) = some 0 :=
  (waiting_entry_found sameBaseAdr sampleKey (fun a b => by simp [sameBaseAdr]) emptyTable [] [sampleConnect]
    sampleConnect 0 (by decide) (by decide +kernel) (by decide +kernel) (by decide +kernel)).1

end Admit

end YbeProxy.ChallengeTable
