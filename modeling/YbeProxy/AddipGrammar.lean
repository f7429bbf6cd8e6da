import YbeProxy.BanFile

/-!
# The grammar of `addip`

What `StringToFilter` takes, as components and the characters between them, and for which strings that is anything but one to
four components with dots between them.
-/

namespace YbeProxy.AddipGrammar
open YbeProxy.Strings YbeProxy.Bans YbeProxy.Numerals YbeProxy.BanFile

/-! ## Components -/

/-- One to three digits with the value of a byte. -/
structure Number (word : CString) : Prop where
  present : word ≠ []
  few : word.length ≤ 3
  digits : ∀ c ∈ word, isDigit c = true
  small : numeral 10 digitValue word ≤ 255

def Component (word : CString) : Prop := word = ['*'] ∨ Number word

def octetOf (word : CString) : Octet := if word = ['*'] then .wild else .exact (.ofNat (numeral 10 digitValue word))

/-- A component and the character behind it. -/
structure Piece where
  word : CString
  behind : Char

def joined : List Piece → CString → CString
  | [], last => last
  | piece :: pieces, last => piece.word ++ piece.behind :: joined pieces last

/-- The parser goes on behind the component. -/
def Piece.Passed (piece : Piece) : Prop :=
  piece.word = ['*'] ∧ piece.behind = '.' ∨ Number piece.word ∧ isDigit piece.behind = false

theorem Number.octetOf {word : CString} (number : Number word) :
    octetOf word = .exact (.ofNat (numeral 10 digitValue word)) := by
  rw [AddipGrammar.octetOf, if_neg]
  rintro rfl
  exact absurd (number.digits '*' List.mem_cons_self) (by decide)

theorem Piece.Passed.component {piece : Piece} (passed : piece.Passed) : Component piece.word :=
  passed.imp And.left And.left

/-! ## What is read -/

theorem readNumber_some {digits sum value : Nat} {s rest : CString} (read : readNumber digits sum s = some (value, rest)) :
    ∃ word, s = word ++ rest ∧ (∀ c ∈ word, isDigit c = true) ∧ (word = [] ∨ digits + word.length ≤ 3) ∧
      value = word.foldl (fun sum c => sum * 10 + digitValue c) sum ∧ ∀ c ∈ rest.head?, isDigit c = false := by
  induction s generalizing digits sum with
  | nil =>
    cases read
    exact ⟨[], rfl, List.forall_mem_nil _, Or.inl rfl, rfl, by simp⟩
  | cons c s hypothesis =>
    rw [readNumber] at read
    by_cases digit : isDigit c = true
    · simp only [if_pos digit] at read
      by_cases bad : digits + 1 > 3 ∨ sum * 10 + digitValue c > 255
      · rw [if_pos bad] at read
        cases read
      · rw [if_neg bad] at read
        obtain ⟨word, rfl, whole, few, same, stop⟩ := hypothesis read
        refine ⟨c :: word, rfl, List.forall_mem_cons.mpr ⟨digit, whole⟩, Or.inr ?_, same, stop⟩
        rw [List.length_cons]
        rcases few with rfl | few
        · simp only [List.length_nil]
          omega
        · omega
    · rw [if_neg digit, Option.some.injEq, Prod.mk.injEq] at read
      obtain ⟨rfl, rfl⟩ := read
      exact ⟨[], rfl, List.forall_mem_nil _, Or.inl rfl, rfl, by simpa using digit⟩

/-- A number that is read, and what stands behind it. -/
theorem number_of_read {c : Char} {s rest : CString} {value : Nat} (digit : isDigit c = true)
    (read : readNumber 0 0 (c :: s) = some (value, rest)) :
    ∃ word, c :: s = word ++ rest ∧ Number word ∧ value = numeral 10 digitValue word ∧
      ∀ c ∈ rest.head?, isDigit c = false := by
  obtain ⟨word, parts, digits, few, same, stop⟩ := readNumber_some read
  have present : word ≠ [] := by
    rintro rfl
    rw [List.nil_append] at parts
    rw [← parts] at stop
    rw [stop c rfl] at digit
    cases digit
  have small := BanPatterns.readNumber_le (Nat.zero_le 255) read
  refine ⟨word, parts, ⟨present, ?_, digits, ?_⟩, same, stop⟩
  · have bound := few.resolve_left present
    omega
  · rw [same] at small
    exact small

theorem readOctets_number (n : Nat) {word : CString} (number : Number word) :
    readOctets false (n + 1) word = some (octetOf word :: List.replicate n .wild) ∧
      ∀ c rest, isDigit c = false →
        readOctets false (n + 1) (word ++ c :: rest) = (readOctets false n rest).map (octetOf word :: ·) := by
  have octet : numberOctet false (numeral 10 digitValue word) = octetOf word := by
    simp [numberOctet, number.octetOf]
  rw [← octet]
  exact readOctets_digits false n number.present number.digits number.few number.small

theorem readOctets_star (n : Nat) (rest : CString) :
    readOctets false (n + 1) ['*'] = some (octetOf ['*'] :: List.replicate n .wild) ∧
      readOctets false (n + 1) ('*' :: '.' :: rest) = (readOctets false n rest).map (octetOf ['*'] :: ·) := by
  have octet : octetOf ['*'] = .wild := if_pos rfl
  rw [octet]
  exact ⟨rfl, by rw [readOctets, if_pos rfl]⟩

/-- So many octets at most, each behind a component that was passed; what follows the last of them is not read. -/
inductive Reads : Nat → CString → List Octet → Prop where
  | enough (s : CString) : Reads 0 s []
  | last {n : Nat} {word : CString} (component : Component word) :
      Reads (n + 1) word (octetOf word :: List.replicate n .wild)
  | next {n : Nat} {piece : Piece} {s : CString} {octets : List Octet} (passed : piece.Passed) (rest : Reads n s octets) :
      Reads (n + 1) (piece.word ++ piece.behind :: s) (octetOf piece.word :: octets)

theorem readOctets_of_reads {n : Nat} {s : CString} {octets : List Octet} (reads : Reads n s octets) :
    readOctets false n s = some octets := by
  induction reads with
  | enough s => rfl
  | last component =>
    rcases component with rfl | number
    · exact (readOctets_star _ []).1
    · exact (readOctets_number _ number).1
  | next passed rest hypothesis =>
    rename_i n piece s octets
    obtain ⟨word, behind⟩ := piece
    rcases passed with ⟨rfl, rfl⟩ | ⟨number, stop⟩
    · exact (readOctets_star n s).2.trans (by rw [hypothesis, Option.map_some])
    · rw [(readOctets_number n number).2 behind s stop, hypothesis, Option.map_some]

theorem reads_of_readOctets {n : Nat} {s : CString} {octets : List Octet} (read : readOctets false n s = some octets) :
    Reads n s octets := by
  have value (byte : Nat) : numberOctet false byte = .exact (.ofNat byte) := by simp [numberOctet]
  induction n, s using readOctets.induct generalizing octets with
  | case1 s =>
    cases read
    exact .enough s
  | case2 n =>
    rw [(readOctets_star n []).1, Option.some.injEq] at read
    subst read
    exact .last (Or.inl rfl)
  | case3 n s hypothesis =>
    rw [(readOctets_star n s).2, Option.map_eq_some_iff] at read
    obtain ⟨rest, tail, rfl⟩ := read
    exact @Reads.next n ⟨['*'], '.'⟩ s rest (Or.inl ⟨rfl, rfl⟩) (hypothesis tail)
  | case4 n c s other => simp_all [readOctets]
  | case5 n => simp_all [readOctets]
  | case6 n c s one more digit failed => simp_all [readOctets]
  | case7 n c s one more digit byte number =>
    obtain ⟨word, parts, spelled, rfl, _⟩ := number_of_read digit number
    rw [List.append_nil] at parts
    rw [parts, (readOctets_number n spelled).1, Option.some.injEq] at read
    rw [parts, ← read]
    exact .last (Or.inr spelled)
  | case8 n c s one more digit byte d rest number hypothesis =>
    obtain ⟨word, parts, spelled, rfl, stop⟩ := number_of_read digit number
    have behind : isDigit d = false := stop d rfl
    rw [parts, (readOctets_number n spelled).2 d rest behind, Option.map_eq_some_iff] at read
    obtain ⟨tail, found, rfl⟩ := read
    rw [parts]
    exact @Reads.next n ⟨word, d⟩ rest tail (Or.inr ⟨spelled, behind⟩) (hypothesis found)
  | case9 n c s one more plain => simp_all [readOctets]

theorem reads_iff (n : Nat) (s : CString) (octets : List Octet) :
    Reads n s octets ↔ ∃ pieces last, s = joined pieces last ∧ (∀ piece ∈ pieces, piece.Passed) ∧
      (pieces.length = n ∧ octets = pieces.map (fun piece => octetOf piece.word) ∨
        Component last ∧ ∃ missing, pieces.length + 1 + missing = n ∧
          octets = pieces.map (fun piece => octetOf piece.word) ++ octetOf last :: List.replicate missing .wild) := by
  constructor
  · intro reads
    induction reads with
    | enough s => exact ⟨[], s, rfl, List.forall_mem_nil _, Or.inl ⟨rfl, rfl⟩⟩
    | last component =>
      rename_i n word
      exact ⟨[], word, rfl, List.forall_mem_nil _, Or.inr ⟨component, n, by simp [Nat.add_comm], rfl⟩⟩
    | next passed rest hypothesis =>
      rename_i n piece s octets
      obtain ⟨pieces, last, rfl, all, outcome⟩ := hypothesis
      refine ⟨piece :: pieces, last, rfl, List.forall_mem_cons.mpr ⟨passed, all⟩, ?_⟩
      rcases outcome with ⟨rfl, rfl⟩ | ⟨component, missing, rfl, rfl⟩
      · exact Or.inl ⟨rfl, rfl⟩
      · exact Or.inr ⟨component, missing, by rw [List.length_cons]; omega, rfl⟩
  · rintro ⟨pieces, last, rfl, all, outcome⟩
    induction pieces generalizing n octets with
    | nil =>
      rcases outcome with ⟨rfl, rfl⟩ | ⟨component, missing, rfl, rfl⟩
      · exact .enough last
      · rw [List.length_nil, Nat.zero_add, Nat.add_comm]
        exact .last component
    | cons piece pieces hypothesis =>
      obtain ⟨passed, all⟩ := List.forall_mem_cons.mp all
      rcases outcome with ⟨rfl, rfl⟩ | ⟨component, missing, rfl, rfl⟩
      · exact .next passed (hypothesis _ _ all (Or.inl ⟨rfl, rfl⟩))
      · have length : (piece :: pieces).length + 1 + missing = pieces.length + 1 + missing + 1 := by
          rw [List.length_cons]
          omega
        rw [length]
        exact .next passed (hypothesis _ _ all (Or.inr ⟨component, missing, rfl, rfl⟩))

/-! ## One way to take a text apart -/

def firstComponent (s : CString) : CString := if s.head? = some '*' then ['*'] else s.takeWhile isDigit

theorem firstComponent_number {word rest : CString} (number : Number word) (stop : ∀ c ∈ rest.head?, isDigit c = false) :
    firstComponent (word ++ rest) = word := by
  obtain ⟨d, tail, same⟩ := List.exists_cons_of_ne_nil number.present
  have other : (word ++ rest).head? ≠ some '*' := by
    rw [same, List.cons_append, List.head?_cons]
    rintro ⟨⟩
    exact absurd (number.digits '*' (by rw [same]; exact List.mem_cons_self)) (by decide)
  rw [firstComponent, if_neg other, List.takeWhile_append_of_pos number.digits]
  cases rest with
  | nil => simp
  | cons c rest => simp [stop c rfl]

theorem firstComponent_component {word : CString} (component : Component word) : firstComponent word = word := by
  rcases component with rfl | number
  · rfl
  · have alone := @firstComponent_number word [] number (by simp)
    rwa [List.append_nil] at alone

theorem firstComponent_passed {piece : Piece} (passed : piece.Passed) (rest : CString) :
    firstComponent (piece.word ++ piece.behind :: rest) = piece.word := by
  rcases passed with ⟨star, _⟩ | ⟨number, stop⟩
  · rw [star]
    rfl
  · exact firstComponent_number number (by simpa using stop)

/-- Whatever is taken from the front of a text is taken by every way that ends with a component. -/
theorem prefix_of_joined {pieces others : List Piece} {rest last : CString} (same : joined pieces rest = joined others last)
    (passed : ∀ piece ∈ pieces, piece.Passed) (passed' : ∀ piece ∈ others, piece.Passed) (component : Component last) :
    pieces <+: others := by
  induction pieces generalizing others with
  | nil => exact List.nil_prefix
  | cons piece pieces hypothesis =>
    obtain ⟨here, passed⟩ := List.forall_mem_cons.mp passed
    rw [joined] at same
    have first := firstComponent_passed here (joined pieces rest)
    cases others with
    | nil =>
      rw [same, joined, firstComponent_component component] at first
      rw [first] at same
      exact absurd (congrArg List.length same) (by simp [joined])
    | cons other others =>
      obtain ⟨here', passed'⟩ := List.forall_mem_cons.mp passed'
      rw [same, joined, firstComponent_passed here' (joined others last)] at first
      rw [joined, first] at same
      obtain ⟨behind, tail⟩ := List.cons.inj (List.append_cancel_left same)
      have equal : piece = other := by
        obtain ⟨word, c⟩ := piece
        obtain ⟨word', c'⟩ := other
        exact congrArg₂ Piece.mk first.symm behind
      rw [equal, List.cons_prefix_cons]
      exact ⟨rfl, hypothesis tail passed passed'⟩

/-! ## Against the grammar -/

/-- One to four components with single dots between them; octets without a component are wildcards. -/
def Denotes (s : CString) (octets : List Octet) : Prop :=
  ∃ words, words ≠ [] ∧ words.length ≤ 4 ∧ (∀ word ∈ words, Component word) ∧ s = ['.'].intercalate words ∧
    octets = words.map octetOf ++ List.replicate (4 - words.length) .wild

/-- Exactly the strings of the grammar are taken, with the octets that they denote, and any other adds nothing. -/
structure FollowsGrammar (s : CString) : Prop where
  reads : ∀ filter, stringToFilter s false = .ok filter ↔ filter.used = true ∧ Denotes s filter.octets
  refuses : (¬ ∃ octets, Denotes s octets) → ∀ bans, addIP bans s false = (false, bans)

/-- Behind a number stands some other character than a dot and the text goes on as one that is taken, or there is something
behind the fourth component: any text behind a number, a dot and any text behind a star. -/
def Loose (s : CString) : Prop :=
  ∃ pieces last, s = joined pieces last ∧ (∀ piece ∈ pieces, piece.Passed) ∧
    (pieces.length = 4 ∨ pieces.length < 4 ∧ Component last ∧ ∃ piece ∈ pieces, piece.behind ≠ '.')

def dots (words : List CString) : List Piece := words.map fun word => ⟨word, '.'⟩

theorem joined_dots (words : List CString) (last : CString) :
    joined (dots words) last = ['.'].intercalate (words ++ [last]) := by
  induction words with
  | nil => simp [dots, joined]
  | cons word words hypothesis =>
    rw [List.cons_append, List.intercalate_cons_of_ne_nil (by simp), ← hypothesis, List.append_assoc,
      List.singleton_append]
    rfl

theorem passed_dots {words : List CString} (components : ∀ word ∈ words, Component word) :
    ∀ piece ∈ dots words, piece.Passed := by
  intro piece member
  obtain ⟨word, listed, rfl⟩ := List.mem_map.mp member
  rcases components word listed with star | number
  · exact Or.inl ⟨star, rfl⟩
  · have dot : isDigit '.' = false := by decide
    exact Or.inr ⟨number, dot⟩

/-- The grammar is what is read with dots only and nothing behind the last component. -/
theorem denotes_iff (s : CString) (octets : List Octet) :
    Denotes s octets ↔ ∃ words last, s = joined (dots words) last ∧ (∀ word ∈ words, Component word) ∧ Component last ∧
      ∃ missing, words.length + 1 + missing = 4 ∧
        octets = words.map octetOf ++ octetOf last :: List.replicate missing .wild := by
  constructor
  · rintro ⟨words, present, few, components, rfl, rfl⟩
    obtain rfl | ⟨front, last, rfl⟩ := List.eq_nil_or_concat' words
    · exact absurd rfl present
    · rw [List.length_append, List.length_singleton] at few ⊢
      refine ⟨front, last, (joined_dots front last).symm, fun word member => components word (List.mem_append_left _ member),
        components last (by simp), 4 - (front.length + 1), by omega, ?_⟩
      rw [List.map_append, List.map_singleton, List.append_assoc, List.singleton_append]
  · rintro ⟨words, last, rfl, components, component, missing, length, rfl⟩
    refine ⟨words ++ [last], by simp, ?_, ?_, joined_dots words last, ?_⟩
    · rw [List.length_append, List.length_singleton]
      omega
    · exact List.forall_mem_append.mpr ⟨components, List.forall_mem_singleton.mpr component⟩
    · rw [List.length_append, List.length_singleton, List.map_append, List.map_singleton, List.append_assoc,
        List.singleton_append, show 4 - (words.length + 1) = missing by omega]

theorem reads_of_denotes {s : CString} {octets : List Octet} (denotes : Denotes s octets) : Reads 4 s octets := by
  obtain ⟨words, last, rfl, components, component, missing, length, rfl⟩ := (denotes_iff s octets).mp denotes
  refine (reads_iff 4 _ _).mpr ⟨dots words, last, rfl, passed_dots components, Or.inr ⟨component, missing, ?_, ?_⟩⟩
  · rw [dots, List.length_map, length]
  · rw [dots, List.map_map]
    rfl

theorem denotes_of_reads {s : CString} {octets : List Octet} (reads : Reads 4 s octets) (strict : ¬ Loose s) :
    Denotes s octets := by
  obtain ⟨pieces, last, rfl, passed, outcome⟩ := (reads_iff 4 s octets).mp reads
  rcases outcome with ⟨length, _⟩ | ⟨component, missing, length, rfl⟩
  · exact absurd ⟨pieces, last, rfl, passed, Or.inl length⟩ strict
  · have dotted : ∀ piece ∈ pieces, piece.behind = '.' := by
      intro piece member
      by_contra other
      exact strict ⟨pieces, last, rfl, passed, Or.inr ⟨by omega, component, piece, member, other⟩⟩
    have words : pieces = dots (pieces.map Piece.word) := by
      rw [dots, List.map_map]
      refine ((List.map_congr_left ?_).trans (List.map_id pieces)).symm
      intro piece member
      rw [Function.comp_apply, ← dotted piece member]
      rfl
    refine (denotes_iff _ _).mpr ⟨pieces.map Piece.word, last, by rw [← words], ?_, component, missing, ?_, ?_⟩
    · intro word member
      obtain ⟨piece, listed, rfl⟩ := List.mem_map.mp member
      exact (passed piece listed).component
    · rw [List.length_map, length]
    · rw [List.map_map]
      rfl

theorem not_denotes_of_loose {s : CString} (loose : Loose s) (octets : List Octet) : ¬ Denotes s octets := by
  intro denotes
  obtain ⟨pieces, rest, rfl, passed, outcome⟩ := loose
  obtain ⟨words, last, same, components, component, missing, length, _⟩ := (denotes_iff _ octets).mp denotes
  have front := prefix_of_joined same passed (passed_dots components) component
  rcases outcome with four | ⟨_, _, piece, member, other⟩
  · have short := front.length_le
    rw [dots, List.length_map] at short
    omega
  · obtain ⟨word, _, rfl⟩ := List.mem_map.mp (front.subset member)
    exact other rfl

theorem stringToFilter_ok (s : CString) (filter : IpFilter) :
    stringToFilter s false = .ok filter ↔ filter.used = true ∧ Reads 4 s filter.octets := by
  obtain ⟨used, octets, four⟩ := filter
  rcases BanPatterns.stringToFilter_cases s false with ⟨unread, ⟨line, refused⟩, _⟩ | ⟨octets', four', read, taken, _⟩
  · rw [refused]
    refine iff_of_false nofun ?_
    rintro ⟨_, reads⟩
    rw [readOctets_of_reads reads] at unread
    cases unread
  · rw [taken]
    constructor
    · rintro ⟨⟩
      exact ⟨rfl, reads_of_readOctets read⟩
    · rintro ⟨rfl, reads⟩
      have same := readOctets_of_reads reads
      rw [read, Option.some.injEq] at same
      subst same
      rfl

/-- `addip` takes its grammar, and nothing else, except on the loose strings, which it takes as well. -/
theorem followsGrammar_iff (s : CString) : FollowsGrammar s ↔ ¬ Loose s := by
  constructor
  · rintro ⟨reads, _⟩ loose
    obtain ⟨octets, read⟩ : ∃ octets, Reads 4 s octets := by
      obtain ⟨pieces, last, rfl, passed, four | ⟨few, component, _⟩⟩ := loose
      · exact ⟨_, (reads_iff 4 _ _).mpr ⟨pieces, last, rfl, passed, Or.inl ⟨four, rfl⟩⟩⟩
      · exact ⟨_, (reads_iff 4 _ _).mpr ⟨pieces, last, rfl, passed,
          Or.inr ⟨component, 4 - (pieces.length + 1), by omega, rfl⟩⟩⟩
    have four := length_readOctets (readOctets_of_reads read)
    have taken := (stringToFilter_ok s ⟨true, octets, four⟩).mpr ⟨rfl, read⟩
    exact not_denotes_of_loose loose octets ((reads _).mp taken).2
  · intro strict
    have reads (filter : IpFilter) :
        stringToFilter s false = .ok filter ↔ filter.used = true ∧ Denotes s filter.octets := by
      rw [stringToFilter_ok]
      exact and_congr_right fun _ => ⟨fun read => denotes_of_reads read strict, reads_of_denotes⟩
    refine ⟨reads, ?_⟩
    intro foreign bans
    rcases BanPatterns.stringToFilter_cases s false with ⟨_, ⟨line, refused⟩, _⟩ | ⟨octets, four, _, taken, _⟩
    · rw [addIP, refused]
    · exact absurd ⟨octets, ((reads _).mp taken).2⟩ foreign

def mistyped : CString := "1x2".toList

/-- A slip of the finger bans `1.2.*.*`. -/
theorem mistyped_taken :
    addIP ⟨true, []⟩ mistyped false = (true, ⟨true, [⟨true, [.exact 1, .exact 2, .wild, .wild], rfl⟩]⟩) ∧
      ¬ FollowsGrammar mistyped := by
  have one : Number "1".toList := ⟨by decide, by decide, by decide, by decide⟩
  have two : Number "2".toList := ⟨by decide, by decide, by decide, by decide⟩
  have loose : Loose mistyped := by
    refine ⟨[⟨"1".toList, 'x'⟩], "2".toList, by decide, ?_, Or.inr ⟨by decide, Or.inr two, ?_⟩⟩
    · rintro piece (_ | ⟨_, ⟨⟩⟩)
      exact Or.inr ⟨one, by decide⟩
    · exact ⟨_, List.mem_singleton_self _, by decide⟩
  have taken : stringToFilter mistyped false = .ok ⟨true, [.exact 1, .exact 2, .wild, .wild], rfl⟩ := by rfl
  constructor
  · rw [addIP, taken]
    rfl
  · intro follows
    exact not_denotes_of_loose loose _ ((follows.reads _).mp taken).2

end YbeProxy.AddipGrammar
