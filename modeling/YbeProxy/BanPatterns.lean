import YbeProxy.Bans
import YbeProxy.Numerals
import YbeProxy.SlotStore
import Mathlib.Data.Finset.Card

/-!
# Bans as patterns

The ban list as a set of patterns: an octet is a value or a wildcard, `AddIP` and `RemoveIP` are the operations of a
store in slots, and an address is banned when some pattern of the set matches it.
-/

namespace YbeProxy.BanPatterns
open YbeProxy.Strings YbeProxy.Addresses YbeProxy.Bans YbeProxy.Numerals

/-! ## Patterns -/

/-- Four octets, each a value or a wildcard. -/
structure Pattern where
  octets : List (Option UInt8)
  four : octets.length = 4
  deriving DecidableEq

def Pattern.Matches (pattern : Pattern) (ip : Ipv4) : Prop :=
  List.Forall₂ (fun octet byte => ∀ value ∈ octet, value = byte) pattern.octets (octetsOf ip)

def valueOf (octet : Octet) : Option UInt8 := if octet.mask = 255 then some octet.compare else none

theorem valueOf_injective {a b : Octet} (same : valueOf a = valueOf b) : a = b := by
  obtain ⟨value, mask, rfl | ⟨rfl, rfl⟩⟩ := a
  · obtain ⟨other, mask, rfl | ⟨rfl, rfl⟩⟩ := b
    · simpa [valueOf] using same
    · simp [valueOf] at same
  · obtain ⟨other, mask, rfl | ⟨rfl, rfl⟩⟩ := b
    · simp [valueOf] at same
    · rfl

theorem admits_iff (octet : Octet) (byte : UInt8) : octet.Admits byte ↔ ∀ value ∈ valueOf octet, value = byte := by
  obtain ⟨value, mask, rfl | ⟨rfl, rfl⟩⟩ := octet
  · simp [Octet.Admits, valueOf]
  · simp [Octet.Admits, valueOf]

def patternOf (octets : List Octet) (four : octets.length = 4) : Pattern :=
  ⟨octets.map valueOf, (List.length_map ..).trans four⟩

/-- What a slot of the list holds. -/
def slot (filter : IpFilter) : Option Pattern :=
  if filter.used then some (patternOf filter.octets filter.four) else none

theorem slot_injective {a b : IpFilter} {pattern : Pattern} (left : slot a = some pattern) (right : slot b = some pattern) :
    a = b := by
  obtain ⟨used, octets, four⟩ := a
  obtain ⟨used', octets', four'⟩ := b
  rw [slot, Option.ite_none_right_eq_some] at left right
  obtain ⟨rfl, same⟩ := left
  obtain ⟨rfl, same'⟩ := right
  have equal := congrArg Pattern.octets (Option.some.inj (same.trans same'.symm))
  have octetsEqual : octets = octets' := List.map_injective_iff.mpr (fun _ _ => valueOf_injective) equal
  subst octetsEqual
  rfl

theorem slot_isSome (filter : IpFilter) : (slot filter).isSome = filter.used := by
  rw [slot]
  cases filter.used <;> rfl

theorem sameFilter_iff {filter : IpFilter} {pattern : Pattern} (holds : slot filter = some pattern) (other : IpFilter) :
    sameFilter other filter = true ↔ slot other = some pattern := by
  constructor
  · intro same
    simp only [sameFilter, Bool.and_eq_true, beq_iff_eq] at same
    obtain ⟨⟨used, _⟩, octets⟩ := same
    have equal : other = filter := by
      obtain ⟨_, _, _⟩ := other
      obtain ⟨_, _, _⟩ := filter
      simp_all
    rw [equal, holds]
  · intro same
    have used : filter.used = true := by rw [← slot_isSome, holds, Option.isSome_some]
    rw [slot_injective same holds, sameFilter, used]
    simp

/-! ## Reading a text -/

/-- The pattern that a text spells, where it is the text of a filter. -/
def reading (str : CString) (legacy : Bool) : Option Pattern :=
  match stringToFilter str legacy with
  | .ok filter => slot filter
  | .error _ => none

theorem stringToFilter_cases (str : CString) (legacy : Bool) :
    (readOctets legacy 4 str = none ∧ (∃ line, stringToFilter str legacy = .error line) ∧ reading str legacy = none) ∨
    ∃ octets, ∃ four : octets.length = 4, readOctets legacy 4 str = some octets ∧
      stringToFilter str legacy = .ok ⟨true, octets, four⟩ ∧ reading str legacy = some (patternOf octets four) := by
  rw [reading, stringToFilter]
  split
  · rename_i octets read
    exact Or.inr ⟨octets, length_readOctets read, read, rfl, rfl⟩
  · rename_i read
    exact Or.inl ⟨read, ⟨_, rfl⟩, rfl⟩

/-- An octet as the retail game reads it: a 0 is a wildcard. -/
def retailOctet (octet : Octet) : Octet := if octet.compare = 0 then .wild else octet

theorem readNumber_le {digits value : Nat} {s : CString} {result : Nat × CString} (small : value ≤ 255)
    (read : readNumber digits value s = some result) : result.1 ≤ 255 := by
  induction s generalizing digits value with
  | nil =>
    cases read
    exact small
  | cons c s hypothesis =>
    rw [readNumber] at read
    split at read
    · dsimp only at read
      split at read
      · cases read
      · exact hypothesis (by omega) read
    · cases read
      exact small

theorem numberOctet_true {value : Nat} (small : value ≤ 255) :
    numberOctet true value = retailOctet (numberOctet false value) := by
  have zero : (UInt8.ofNat value = 0) ↔ value = 0 := by
    rw [← UInt8.toNat_inj, UInt8.toNat_ofNat_of_lt' (show value < 256 by omega)]
    rfl
  simp only [numberOctet, retailOctet, Octet.exact, Bool.true_and, Bool.false_and, Bool.false_eq_true, if_false,
    decide_eq_true_eq, zero]

theorem readOctets_true (n : Nat) (s : CString) :
    readOctets true n s = (readOctets false n s).map (List.map retailOctet) := by
  have wild : retailOctet .wild = .wild := rfl
  induction n, s using readOctets.induct with
  | case1 s => rfl
  | case2 n => simp [readOctets, wild]
  | case3 n s hypothesis => simp [readOctets, hypothesis, wild, Function.comp_def]
  | case4 n c s other => simp [readOctets, other]
  | case5 n => rfl
  | case6 n c s one more digit failed => simp [readOctets, digit, failed]
  | case7 n c s one more digit value number =>
    have small := readNumber_le (Nat.zero_le 255) number
    simp [readOctets, digit, number, numberOctet_true small, wild]
  | case8 n c s one more digit value d rest number hypothesis =>
    have small := readNumber_le (Nat.zero_le 255) number
    simp [readOctets, digit, number, numberOctet_true small, hypothesis, Function.comp_def]
  | case9 n c s one more plain => simp [readOctets, plain]

/-- The pattern with a wildcard for every 0. -/
def Pattern.retail (pattern : Pattern) : Pattern :=
  ⟨pattern.octets.map fun octet => if octet = some 0 then none else octet, (List.length_map ..).trans pattern.four⟩

theorem valueOf_retailOctet (octet : Octet) :
    valueOf (retailOctet octet) = if valueOf octet = some 0 then none else valueOf octet := by
  obtain ⟨value, mask, rfl | ⟨rfl, rfl⟩⟩ := octet
  · by_cases zero : value = 0
    · simp [retailOctet, valueOf, zero, Octet.wild]
    · simp [retailOctet, valueOf, zero]
  · rfl

/-- With the rules of the retail game the same text has a wildcard for every 0. -/
theorem reading_true (str : CString) : reading str true = (reading str false).map Pattern.retail := by
  have same := readOctets_true 4 str
  rcases stringToFilter_cases str false with ⟨read, _, unread⟩ | ⟨octets, four, read, _, spelled⟩
  · rcases stringToFilter_cases str true with ⟨_, _, unread'⟩ | ⟨_, _, read', _, _⟩
    · rw [unread, unread', Option.map_none]
    · rw [read, read'] at same
      cases same
  · rcases stringToFilter_cases str true with ⟨read', _, _⟩ | ⟨octets', four', read', _, spelled'⟩
    · rw [read, read'] at same
      cases same
    · rw [read, read', Option.map_some, Option.some.injEq] at same
      subst same
      rw [spelled, spelled', Option.map_some, Option.some.injEq]
      simp [patternOf, Pattern.retail, valueOf_retailOctet]

/-- Both readings take the same texts. -/
theorem reading_isSome (str : CString) : (reading str true).isSome = (reading str false).isSome := by
  rw [reading_true, Option.isSome_map]

/-! ## The operations of the store -/

def slots (bans : BanList) : List (Option Pattern) := bans.ipFilters.map slot

/-- The set of patterns that the list stands for. -/
def patterns (bans : BanList) : Finset Pattern := (slots bans).reduceOption.toFinset

theorem mem_patterns {bans : BanList} {pattern : Pattern} :
    pattern ∈ patterns bans ↔ ∃ filter ∈ bans.ipFilters, slot filter = some pattern := by
  rw [patterns, List.mem_toFinset, List.reduceOption_mem_iff, slots, List.mem_map]

theorem addIP_of_unread {str : CString} {legacy : Bool} (bad : reading str legacy = none) (bans : BanList) :
    addIP bans str legacy = (false, bans) := by
  rcases stringToFilter_cases str legacy with ⟨_, ⟨line, read⟩, _⟩ | ⟨_, _, _, _, spelled⟩
  · rw [addIP, read]
  · rw [spelled] at bad
    cases bad

theorem addIP_of_read {str : CString} {legacy : Bool} {pattern : Pattern} (good : reading str legacy = some pattern)
    (bans : BanList) :
    (addIP bans str legacy).1 = (SlotStore.add maxIpFilters (slots bans) pattern).1 ∧
      slots (addIP bans str legacy).2 = (SlotStore.add maxIpFilters (slots bans) pattern).2 ∧
      (addIP bans str legacy).2.active = bans.active := by
  rcases stringToFilter_cases str legacy with ⟨_, _, unread⟩ | ⟨octets, four, _, read, spelled⟩
  · rw [unread] at good
    cases good
  rw [spelled, Option.some.injEq] at good
  subst good
  have holds : slot ⟨true, octets, four⟩ = some (patternOf octets four) := rfl
  have there : bans.ipFilters.any (sameFilter · ⟨true, octets, four⟩) = true ↔ some (patternOf octets four) ∈ slots bans := by
    simp only [List.any_eq_true, sameFilter_iff holds, slots, List.mem_map]
  have free : (slots bans).findIdx? Option.isNone = bans.ipFilters.findIdx? fun other => !other.used := by
    rw [slots, List.findIdx?_map]
    congr 1
    funext other
    rw [Function.comp_apply, ← Option.not_isSome, slot_isSome]
  rw [addIP, read, SlotStore.add, free]
  by_cases found : some (patternOf octets four) ∈ slots bans
  · simp only [if_pos found, there.mpr found, if_true]
    trivial
  · have absent : ¬ bans.ipFilters.any (sameFilter · ⟨true, octets, four⟩) = true := fun any => found (there.mp any)
    have length : (slots bans).length = bans.ipFilters.length := List.length_map ..
    simp only [if_neg found, if_neg absent, length]
    cases bans.ipFilters.findIdx? fun other => !other.used with
    | some i => exact ⟨rfl, List.map_set .., rfl⟩
    | none =>
      simp only
      split
      · exact ⟨rfl, rfl, rfl⟩
      · exact ⟨rfl, by simp [slots, holds], rfl⟩

/-- What `RemoveIP` looks for: the text as it is read today, or as the retail game read it. -/
def Spelled (str : CString) (pattern : Pattern) : Prop :=
  reading str false = some pattern ∨ reading str true = some pattern

instance (str : CString) : DecidablePred (Spelled str) := fun _ => inferInstanceAs (Decidable (_ ∨ _))

theorem map_modify_eq_set {α β : Type} (f : α → β) (g : α → α) (z : β) (freed : ∀ x, f (g x) = z) (l : List α) (i : Nat) :
    (l.modify i g).map f = (l.map f).set i z := by
  apply List.ext_getElem?
  intro j
  rw [List.getElem?_map, List.getElem?_modify, List.getElem?_set, List.getElem?_map]
  by_cases same : i = j
  · subst same
    cases found : l[i]? with
    | none => simpa using found
    | some x => simp [freed, (List.getElem?_eq_some_iff.mp found).1]
  · simp [same]

/-- A removal frees the first slot that holds a reading of the text. -/
theorem removeIP_eq (bans : BanList) (str : CString) :
    slots (removeIP bans str) = SlotStore.remove (fun pattern => decide (Spelled str pattern)) (slots bans) ∧
      (removeIP bans str).active = bans.active ∧
      ((slots bans).findIdx? (fun slot => slot.any fun pattern => decide (Spelled str pattern)) = none →
        removeIP bans str = bans) := by
  have legacy := reading_isSome str
  rw [SlotStore.remove]
  rcases stringToFilter_cases str false with ⟨_, ⟨line, read⟩, unread⟩ | ⟨octets, four, _, read, spelled⟩
  · rw [unread, Option.isSome_none, Option.isSome_eq_false_iff, Option.isNone_iff_eq_none] at legacy
    have absent : (slots bans).findIdx? (fun slot => slot.any fun pattern => decide (Spelled str pattern)) = none := by
      simp [Spelled, unread, legacy]
    rw [removeIP, read, absent]
    exact ⟨rfl, rfl, fun _ => rfl⟩
  · rw [spelled, Option.isSome_some] at legacy
    rcases stringToFilter_cases str true with ⟨_, _, unread'⟩ | ⟨octets', four', _, read', spelled'⟩
    · rw [unread'] at legacy
      cases legacy
    have today : slot ⟨true, octets, four⟩ = some (patternOf octets four) := rfl
    have retail : slot ⟨true, octets', four'⟩ = some (patternOf octets' four') := rfl
    have test (other : IpFilter) :
        (sameFilter other ⟨true, octets, four⟩ || sameFilter other ⟨true, octets', four'⟩) =
          (slot other).any fun pattern => decide (Spelled str pattern) := by
      rw [Bool.eq_iff_iff, Bool.or_eq_true, sameFilter_iff today, sameFilter_iff retail, Option.any_eq_true]
      simp only [Spelled, spelled, spelled', decide_eq_true_eq, Option.some.injEq]
      constructor
      · rintro (holds | holds)
        · exact ⟨_, holds, Or.inl rfl⟩
        · exact ⟨_, holds, Or.inr rfl⟩
      · rintro ⟨pattern, holds, rfl | rfl⟩
        · exact Or.inl holds
        · exact Or.inr holds
    rw [removeIP, read]
    simp only [read', test]
    have search : (slots bans).findIdx? (fun slot => slot.any fun pattern => decide (Spelled str pattern)) =
        bans.ipFilters.findIdx? fun other => (slot other).any fun pattern => decide (Spelled str pattern) :=
      List.findIdx?_map
    rw [search]
    cases bans.ipFilters.findIdx? fun other => (slot other).any fun pattern => decide (Spelled str pattern) with
    | none => exact ⟨rfl, rfl, fun _ => rfl⟩
    | some i => exact ⟨map_modify_eq_set slot _ none (fun _ => rfl) _ i, rfl, fun absent => by cases absent⟩

/-! ## The set of patterns -/

abbrev Sound (bans : BanList) : Prop := SlotStore.Sound maxIpFilters (slots bans)

theorem sound_nil (active : Bool) : Sound ⟨active, []⟩ := ⟨List.nodup_nil, Nat.zero_le _⟩

theorem Sound.card {bans : BanList} (sound : Sound bans) : (patterns bans).card = (slots bans).reduceOption.length :=
  List.toFinset_card_of_nodup sound.apart

theorem addIP_failed {bans : BanList} {str : CString} {legacy : Bool} (failed : (addIP bans str legacy).1 = false) :
    (addIP bans str legacy).2 = bans := by
  revert failed
  rw [addIP]
  cases stringToFilter str legacy with
  | error line => exact fun _ => rfl
  | ok filter =>
    simp only
    split
    · exact fun _ => rfl
    · cases bans.ipFilters.findIdx? fun other => !other.used with
      | some free =>
        intro failed
        cases failed
      | none =>
        simp only
        split
        · exact fun _ => rfl
        · intro failed
          cases failed

/-- An addition adds the reading of its text, or fails: the text is bad, or the list is full without it. -/
theorem addIP_cases {bans : BanList} (sound : Sound bans) (str : CString) (legacy : Bool) :
    Sound (addIP bans str legacy).2 ∧
      (((addIP bans str legacy).1 = true ∧ ∃ pattern, reading str legacy = some pattern ∧
          patterns (addIP bans str legacy).2 = insert pattern (patterns bans)) ∨
        (addIP bans str legacy = (false, bans) ∧ ∀ pattern, reading str legacy = some pattern →
          pattern ∉ patterns bans ∧ (patterns bans).card = maxIpFilters)) := by
  cases good : reading str legacy with
  | none =>
    rw [addIP_of_unread good]
    exact ⟨sound, Or.inr ⟨rfl, nofun⟩⟩
  | some pattern =>
    obtain ⟨success, stored, _⟩ := addIP_of_read good bans
    constructor
    · rw [Sound, stored]
      exact sound.add pattern
    · by_cases there : pattern ∈ (slots bans).reduceOption
      · rw [SlotStore.add_of_mem maxIpFilters there] at success stored
        refine Or.inl ⟨success, pattern, rfl, ?_⟩
        have member : pattern ∈ patterns bans := List.mem_toFinset.mpr there
        rw [Finset.insert_eq_self.mpr member, patterns, stored, patterns]
      · rcases SlotStore.add_of_not_mem sound.bounded there with ⟨_, added, joined, _⟩ | ⟨full, refused⟩
        · rw [added] at success
          refine Or.inl ⟨success, pattern, rfl, ?_⟩
          rw [patterns, stored, List.toFinset_eq_of_perm _ _ joined, List.toFinset_cons, patterns]
        · rw [refused] at success
          refine Or.inr ⟨Prod.ext success (addIP_failed success), ?_⟩
          rintro _ ⟨⟩
          refine ⟨fun member => there (List.mem_toFinset.mp member), ?_⟩
          rw [sound.card, full]

/-- A removal takes out one pattern that the text spells, from the first slot that holds one, or there is none. -/
theorem removeIP_cases {bans : BanList} (sound : Sound bans) (str : CString) :
    Sound (removeIP bans str) ∧
      ((∃ i pattern, (slots bans)[i]? = some (some pattern) ∧ Spelled str pattern ∧
          (∀ j other, j < i → (slots bans)[j]? = some (some other) → ¬ Spelled str other) ∧
          slots (removeIP bans str) = (slots bans).set i none ∧
          patterns (removeIP bans str) = (patterns bans).erase pattern) ∨
        (removeIP bans str = bans ∧ ∀ pattern ∈ patterns bans, ¬ Spelled str pattern)) := by
  obtain ⟨stored, _, untouched⟩ := removeIP_eq bans str
  constructor
  · rw [Sound, stored]
    exact sound.remove _
  · obtain ⟨i, pattern, holds, spelled, others, freed, left⟩ | ⟨absent, none⟩ :=
      SlotStore.remove_cases sound.apart fun pattern => decide (Spelled str pattern)
    · refine Or.inl ⟨i, pattern, holds, of_decide_eq_true spelled, ?_, stored.trans freed, ?_⟩
      · intro j other below found
        exact of_decide_eq_false (others j other below found)
      · ext other
        rw [Finset.mem_erase, patterns, stored, List.mem_toFinset, patterns, List.mem_toFinset]
        exact left other
    · refine Or.inr ⟨untouched absent, ?_⟩
      intro pattern member
      exact of_decide_eq_false (none pattern (List.mem_toFinset.mp member))

/-! ## Banned addresses -/

/-- A number as digits, with leading zeros or not. -/
def Spells (word : CString) (byte : UInt8) : Prop :=
  word ≠ [] ∧ (∀ c ∈ word, isDigit c = true) ∧ numeral 10 digitValue word = byte.toNat

/-- `a.b.c.d`, with or without a port. -/
def AddressText (ip : Ipv4) (text : CString) : Prop :=
  ∃ a b c d port, Spells a ip.a ∧ Spells b ip.b ∧ Spells c ip.c ∧ Spells d ip.d ∧
    text = a ++ '.' :: (b ++ '.' :: (c ++ '.' :: (d ++ port))) ∧ (port = [] ∨ ∃ digits, port = ':' :: digits)

theorem readParts_spelled {word : CString} {byte : UInt8} (spelled : Spells word byte) (n : Nat) (s : CString) :
    readParts (n + 1) 0 (word ++ s) = readParts (n + 1) byte s := by
  obtain ⟨_, digits, value⟩ := spelled
  have fold (word : CString) (digits : ∀ c ∈ word, isDigit c = true) (sum : Nat) :
      readParts (n + 1) (.ofNat sum) (word ++ s) =
        readParts (n + 1) (.ofNat (word.foldl (fun sum c => sum * 10 + digitValue c) sum)) s := by
    induction word generalizing sum with
    | nil => rfl
    | cons c word hypothesis =>
      obtain ⟨digit, digits⟩ := List.forall_mem_cons.mp digits
      rw [List.cons_append, readParts, if_pos digit, List.foldl_cons, ← hypothesis digits, UInt8.ofNat_add,
        UInt8.ofNat_mul]
      rfl
  have whole := fold word digits 0
  rw [numeral] at value
  rwa [value, UInt8.ofNat_toNat] at whole

theorem readParts_address {ip : Ipv4} {text : CString} (address : AddressText ip text) :
    readParts 4 0 text = octetsOf ip := by
  obtain ⟨a, b, c, d, port, first, second, third, fourth, rfl, port⟩ := address
  have dot (n : Nat) (byte : UInt8) (s : CString) : readParts (n + 1) byte ('.' :: s) = byte :: readParts n 0 s := by
    rw [readParts, if_neg (by decide), if_neg (by decide)]
  rw [readParts_spelled first, dot, readParts_spelled second, dot, readParts_spelled third, dot, readParts_spelled fourth]
  rcases port with rfl | ⟨digits, rfl⟩
  · rfl
  · rw [readParts, if_neg (by decide), if_pos rfl]
    rfl

theorem test_iff (filter : IpFilter) (ip : Ipv4) :
    ((filter.octets.zip (octetsOf ip)).all fun pair => pair.1.test pair.2) = true ↔
      (patternOf filter.octets filter.four).Matches ip := by
  rw [Pattern.Matches, patternOf, List.forall₂_map_left_iff, List.forall₂_iff_zip, List.all_eq_true]
  have lengths : filter.octets.length = (octetsOf ip).length := filter.four
  constructor
  · intro all
    refine ⟨lengths, ?_⟩
    intro octet byte member
    exact (admits_iff octet byte).mp ((Octet.test_iff octet byte).mp (all (octet, byte) member))
  · rintro ⟨_, all⟩ ⟨octet, byte⟩ member
    exact (Octet.test_iff octet byte).mpr ((admits_iff octet byte).mpr (all member))

/-- An address is banned when a pattern of the set matches it. -/
theorem isBanned_iff {bans : BanList} (active : bans.active = true) {ip : Ipv4} {text : CString}
    (address : AddressText ip text) : isBanned bans text = true ↔ ∃ pattern ∈ patterns bans, pattern.Matches ip := by
  have digit : text.head?.any isDigit = true := by
    obtain ⟨a, _, _, _, _, ⟨present, digits, _⟩, _, _, _, rfl, _⟩ := address
    obtain ⟨c, word, rfl⟩ := List.exists_cons_of_ne_nil present
    exact digits c List.mem_cons_self
  rw [isBanned, active, digit, readParts_address address]
  simp only [Bool.not_true, Bool.or_self, Bool.false_eq_true, if_false, List.any_eq_true, Bool.and_eq_true, test_iff]
  constructor
  · rintro ⟨filter, listed, used, hit⟩
    exact ⟨_, mem_patterns.mpr ⟨filter, listed, by rw [slot, if_pos used]⟩, hit⟩
  · rintro ⟨pattern, member, hit⟩
    obtain ⟨filter, listed, holds⟩ := mem_patterns.mp member
    rw [slot, Option.ite_none_right_eq_some, Option.some.injEq] at holds
    obtain ⟨used, rfl⟩ := holds
    exact ⟨filter, listed, used, hit⟩

end YbeProxy.BanPatterns
