import YbeProxy.ExactBans

/-!
# The words that make bans

Which words of the ban file and of `g_banIPs` make a ban in `BeforeGameInit`. A text reaches `AddIPList` through a buffer of a
fixed size, and a word through one of 64 bytes.
-/

namespace YbeProxy.BanWords
open YbeProxy.Strings YbeProxy.Addresses YbeProxy.Bans YbeProxy.BanPatterns YbeProxy.BanFile

/-! ## Words in a text -/

/-- A maximal run of characters that are no separators, with what stands on its sides. -/
structure WordAt (front word back : CString) : Prop where
  present : word ≠ []
  whole : ∀ c ∈ word, separator c = false
  starts : ∀ c ∈ front.getLast?, separator c = true
  ends : ∀ c ∈ back.head?, separator c = true

theorem words_cons {c : Char} (split : separator c = true) (text : CString) : words (c :: text) = words text := by
  have empty : ∀ c ∈ ([] : CString), separator c = false := List.forall_mem_nil _
  rw [← List.nil_append (c :: text), words_append empty split, if_pos rfl, List.nil_append]

theorem words_append_cons (front : CString) {c : Char} (split : separator c = true) (back : CString) :
    words (front ++ c :: back) = words front ++ words back := by
  rw [words, List.splitOnP_append_cons front back split, List.filter_append, words, words]

/-- A text is cut between its words where a separator stands on one side, or nothing. -/
theorem words_append_of_starts {front : CString} (starts : ∀ c ∈ front.getLast?, separator c = true) (back : CString) :
    words (front ++ back) = words front ++ words back := by
  rcases List.eq_nil_or_concat' front with rfl | ⟨before, c, rfl⟩
  · rfl
  · have split : separator c = true := starts c (by simp)
    rw [List.append_assoc, List.singleton_append, words_append_cons before split, words_append_cons before split]
    simp [words]

theorem words_append_of_ends (front : CString) {back : CString} (ends : ∀ c ∈ back.head?, separator c = true) :
    words (front ++ back) = words front ++ words back := by
  cases back with
  | nil => simp [words]
  | cons c back => rw [words_append_cons front (ends c rfl), words_cons (ends c rfl)]

theorem WordAt.words {front word back : CString} (found : WordAt front word back) :
    words (front ++ (word ++ back)) = words front ++ word :: words back := by
  rw [words_append_of_starts found.starts, words_append_of_ends word found.ends, words_of_word found.whole,
    if_neg found.present, List.singleton_append]

theorem length_words_le (text : CString) : (words text).length ≤ text.length := by
  have one (run : CString) : (if run = [] then [] else [run]).length ≤ run.length := by
    cases run <;> simp
  induction text using runs_induction separator with
  | last run whole =>
    rw [words_of_word whole]
    exact one run
  | more run c rest whole split hypothesis =>
    have first := one run
    rw [words_append whole split, List.length_append, List.length_append, List.length_cons]
    omega

/-- The words of a text are its maximal runs. -/
theorem mem_words {text word : CString} :
    word ∈ words text ↔ ∃ front back, text = front ++ (word ++ back) ∧ WordAt front word back := by
  constructor
  · intro member
    induction text using runs_induction separator with
    | last run whole =>
      rw [words_of_word whole] at member
      split at member
      · cases member
      · rename_i present
        obtain rfl := List.mem_singleton.mp member
        exact ⟨[], [], by simp, present, whole, by simp, by simp⟩
    | more run c rest whole split hypothesis =>
      rw [words_append whole split, List.mem_append] at member
      rcases member with here | later
      · split at here
        · cases here
        · rename_i present
          obtain rfl := List.mem_singleton.mp here
          exact ⟨[], c :: rest, rfl, present, whole, by simp, by simpa using split⟩
      · obtain ⟨front, back, rfl, found⟩ := hypothesis later
        refine ⟨run ++ c :: front, back, by simp, found.present, found.whole, ?_, found.ends⟩
        have starts := found.starts
        cases front with
        | nil => simpa using split
        | cons d front => simpa [List.getLast?_cons] using starts
  · rintro ⟨front, back, rfl, found⟩
    rw [found.words]
    exact List.mem_append_right _ List.mem_cons_self

/-! ## What the buffers hold -/

/-- A number is read within three digits, and the character behind them is looked at. -/
theorem readNumber_take {digits value k : Nat} {s : CString} (few : digits ≤ 3) (room : 4 ≤ digits + k) :
    (readNumber digits value s = none ∧ readNumber digits value (s.take k) = none) ∨
    ∃ result rest m, readNumber digits value s = some (result, rest) ∧
      readNumber digits value (s.take k) = some (result, rest.take m) ∧ digits + k ≤ m + 3 := by
  induction s generalizing digits value k with
  | nil => exact Or.inr ⟨value, [], k, rfl, by rw [List.take_nil]; rfl, by omega⟩
  | cons c s hypothesis =>
    obtain ⟨k, rfl⟩ : ∃ j, k = j + 1 := ⟨k - 1, by omega⟩
    rw [List.take_succ_cons, readNumber, readNumber]
    by_cases digit : isDigit c = true
    · simp only [if_pos digit]
      by_cases bad : digits + 1 > 3 ∨ value * 10 + digitValue c > 255
      · simp only [if_pos bad]
        exact Or.inl ⟨trivial, trivial⟩
      · simp only [if_neg bad]
        rcases @hypothesis (digits + 1) (value * 10 + digitValue c) k (by omega) (by omega) with
          refused | ⟨result, rest, m, read, cut, behind⟩
        · exact Or.inl refused
        · exact Or.inr ⟨result, rest, m, read, cut, by omega⟩
    · simp only [if_neg digit]
      exact Or.inr ⟨value, c :: s, k + 1, rfl, by rw [List.take_succ_cons], by omega⟩

/-- No octet takes more than four characters, with what is looked at behind it. -/
theorem readOctets_take (legacy : Bool) (n : Nat) (s : CString) {k : Nat} (room : 4 * n ≤ k) :
    readOctets legacy n (s.take k) = readOctets legacy n s := by
  have star {c : Char} {s : CString} (one : c = '*' → s = [] → False) (more : ∀ d t, c = '*' → s = d :: t → False) :
      c ≠ '*' := by
    rintro rfl
    cases s with
    | nil => exact one rfl rfl
    | cons d t => exact more d t rfl rfl
  induction n, s using readOctets.induct generalizing k with
  | case1 s => rfl
  | case2 n => rw [List.take_of_length_le (by simp; omega)]
  | case3 n s hypothesis =>
    obtain ⟨k, rfl⟩ : ∃ j, k = j + 2 := ⟨k - 2, by omega⟩
    simp [readOctets, hypothesis (k := k) (by omega)]
  | case4 n c s other =>
    obtain ⟨k, rfl⟩ : ∃ j, k = j + 2 := ⟨k - 2, by omega⟩
    simp [readOctets, other]
  | case5 n => rw [List.take_nil]
  | case6 n c s one more digit failed =>
    have cut : readNumber 0 0 ((c :: s).take k) = none := by
      rcases @readNumber_take 0 0 k (c :: s) (Nat.zero_le 3) (by omega) with
        ⟨_, cut⟩ | ⟨_, _, _, read, _⟩
      · exact cut
      · rw [failed] at read
        cases read
    obtain ⟨k, rfl⟩ : ∃ j, k = j + 1 := ⟨k - 1, by omega⟩
    rw [List.take_succ_cons] at cut ⊢
    simp [readOctets, star one more, digit, failed, cut]
  | case7 n c s one more digit value number =>
    have cut : readNumber 0 0 ((c :: s).take k) = some (value, []) := by
      rcases @readNumber_take 0 0 k (c :: s) (Nat.zero_le 3) (by omega) with
        ⟨read, _⟩ | ⟨_, _, m, read, cut, _⟩
      · rw [number] at read
        cases read
      · rw [number] at read
        cases read
        rw [cut, List.take_nil]
    obtain ⟨k, rfl⟩ : ∃ j, k = j + 1 := ⟨k - 1, by omega⟩
    rw [List.take_succ_cons] at cut ⊢
    simp [readOctets, star one more, digit, number, cut]
  | case8 n c s one more digit value d rest number hypothesis =>
    obtain ⟨m, cut, behind⟩ : ∃ m, readNumber 0 0 ((c :: s).take k) = some (value, d :: rest.take m) ∧ 4 * n ≤ m := by
      rcases @readNumber_take 0 0 k (c :: s) (Nat.zero_le 3) (by omega) with
        ⟨read, _⟩ | ⟨_, _, m, read, cut, behind⟩
      · rw [number] at read
        cases read
      · rw [number] at read
        cases read
        obtain ⟨m, rfl⟩ : ∃ j, m = j + 1 := ⟨m - 1, by omega⟩
        rw [List.take_succ_cons] at cut
        exact ⟨m, cut, by omega⟩
    obtain ⟨k, rfl⟩ : ∃ j, k = j + 1 := ⟨k - 1, by omega⟩
    rw [List.take_succ_cons] at cut ⊢
    simp [readOctets, star one more, digit, number, cut, hypothesis behind]
  | case9 n c s one more plain =>
    obtain ⟨k, rfl⟩ : ∃ j, k = j + 1 := ⟨k - 1, by omega⟩
    simp [readOctets, star one more, plain]

/-- The buffer of a word holds all that is read of it. -/
theorem reading_take (word : CString) (legacy : Bool) : reading (word.take 63) legacy = reading word legacy := by
  have same := readOctets_take legacy 4 word (by decide : 4 * 4 ≤ 63)
  rcases stringToFilter_cases (word.take 63) legacy with ⟨unread, _, cut⟩ | ⟨octets, four, read, _, cut⟩
  · rcases stringToFilter_cases word legacy with ⟨_, _, whole⟩ | ⟨octets, four, read, _, whole⟩
    · rw [cut, whole]
    · rw [unread, read] at same
      cases same
  · rcases stringToFilter_cases word legacy with ⟨unread, _, whole⟩ | ⟨octets', four', read', _, whole⟩
    · rw [read, unread] at same
      cases same
    · rw [read, read', Option.some.injEq] at same
      subst same
      rw [cut, whole]

theorem separator_of_rdropWhile (text : CString) :
    ∀ c ∈ (text.rdropWhile fun c => !separator c).getLast?, separator c = true := by
  intro c last
  obtain ⟨present, same⟩ := List.mem_getLast?_eq_getLast last
  have stopped := List.rdropWhile_last_not _ _ present
  rw [← same] at stopped
  simpa using stopped

/-- The buffer of the file ends between two words of the text. -/
theorem readBuffer_split (text : CString) : ∃ rest, text = readBuffer text ++ rest ∧
    ((∀ c ∈ (readBuffer text).getLast?, separator c = true) ∨ rest = []) := by
  rw [readBuffer]
  split
  · exact ⟨[], (List.append_nil text).symm, Or.inr rfl⟩
  · have back := List.rdropWhile_append_rtakeWhile (p := fun c => !separator c) (l := text.take (bufferSize - 1))
    refine ⟨(text.take (bufferSize - 1)).rtakeWhile (fun c => !separator c) ++ text.drop (bufferSize - 1), ?_, Or.inl ?_⟩
    · rw [← List.append_assoc, back, List.take_append_drop]
    · exact separator_of_rdropWhile _

theorem words_readBuffer (text : CString) : ∀ word ∈ words (readBuffer text), word ∈ words text := by
  intro word member
  obtain ⟨rest, parts, starts | rfl⟩ := readBuffer_split text
  · rw [parts, words_append_of_starts starts]
    exact List.mem_append_left _ member
  · rwa [parts, List.append_nil]

/-- The word ends in the buffer of the file, and so does the separator behind it, where there is one. -/
def InBuffer (front word back : CString) : Prop := front.length + word.length + (back.take 1).length < bufferSize

theorem rdropWhile_append_cons {α : Type} {p : α → Bool} {c : α} (stop : p c = false) (front back : List α) :
    (front ++ c :: back).rdropWhile p = front ++ c :: back.rdropWhile p := by
  induction back using List.reverseRecOn with
  | nil => rw [List.rdropWhile_concat_neg _ _ _ (by simp [stop]), List.rdropWhile_nil]
  | append_singleton back d hypothesis =>
    rw [← List.cons_append, ← List.append_assoc, List.rdropWhile_concat, List.rdropWhile_concat]
    by_cases more : p d = true
    · rw [if_pos more, if_pos more, hypothesis]
    · rw [if_neg more, if_neg more, List.append_assoc, List.cons_append]

theorem mem_words_readBuffer {front word back : CString} (found : WordAt front word back) (inside : InBuffer front word back) :
    word ∈ words (readBuffer (front ++ (word ++ back))) := by
  rw [readBuffer]
  split
  · rw [found.words]
    exact List.mem_append_right _ List.mem_cons_self
  · rename_i long
    rw [InBuffer, bufferSize] at inside
    simp only [bufferSize, List.length_append] at long ⊢
    cases back with
    | nil =>
      simp only [List.take_nil, List.length_nil] at inside long
      omega
    | cons c back =>
      have split : separator c = true := found.ends c rfl
      have joined : front ++ (word ++ c :: back) = front ++ word ++ c :: back := (List.append_assoc ..).symm
      obtain ⟨k, size⟩ : ∃ k, 20480 - 1 = (front ++ word).length + (k + 1) := by
        refine ⟨20480 - 1 - front.length - word.length - 1, ?_⟩
        simp only [List.take_succ_cons, List.take_zero, List.length_singleton] at inside
        rw [List.length_append]
        omega
      rw [joined, size, List.take_length_add_append, List.take_succ_cons, rdropWhile_append_cons (by simp [split]),
        List.append_assoc]
      have cut : WordAt front word (c :: (back.take k).rdropWhile fun c => !separator c) :=
        ⟨found.present, found.whole, found.starts, by simpa using split⟩
      rw [cut.words]
      exact List.mem_append_right _ List.mem_cons_self

/-! ## The list after many additions -/

theorem patterns_subset_addIP {bans : BanList} (sound : Sound bans) (str : CString) (legacy : Bool) :
    patterns bans ⊆ patterns (addIP bans str legacy).2 := by
  obtain ⟨_, ⟨_, pattern, _, joined⟩ | ⟨refused, _⟩⟩ := addIP_cases sound str legacy
  · rw [joined]
    exact Finset.subset_insert pattern _
  · rw [refused]

theorem patterns_subset_addWords {bans : BanList} (sound : Sound bans) (legacy : Bool) (list : List CString) :
    patterns bans ⊆ patterns (addWords legacy bans list) := by
  induction list generalizing bans with
  | nil => exact Finset.Subset.refl _
  | cons word list hypothesis =>
    exact (patterns_subset_addIP sound word legacy).trans (hypothesis (addIP_cases sound word legacy).1)

theorem card_patterns_le {bans : BanList} (sound : Sound bans) : (patterns bans).card ≤ maxIpFilters := by
  rw [sound.card]
  exact (List.reduceOption_length_le _).trans sound.bounded

theorem card_patterns_addWords {bans : BanList} (sound : Sound bans) (legacy : Bool) (list : List CString) :
    (patterns (addWords legacy bans list)).card ≤ (patterns bans).card + list.length := by
  induction list generalizing bans with
  | nil => exact Nat.le_refl _
  | cons word list hypothesis =>
    obtain ⟨sound', outcome⟩ := addIP_cases sound word legacy
    have rest := hypothesis sound'
    have one : (patterns (addIP bans word legacy).2).card ≤ (patterns bans).card + 1 := by
      rcases outcome with ⟨_, pattern, _, joined⟩ | ⟨refused, _⟩
      · rw [joined]
        exact Finset.card_insert_le pattern _
      · rw [refused]
        exact Nat.le_succ _
    rw [List.length_cons]
    exact rest.trans (by omega)

/-- Only readings of the words are added, and each is, as long as the list is not full. -/
theorem patterns_addWords {bans : BanList} (sound : Sound bans) (legacy : Bool) (list : List CString) :
    (∀ pattern ∈ patterns (addWords legacy bans list),
      pattern ∈ patterns bans ∨ ∃ word ∈ list, reading word legacy = some pattern) ∧
    ∀ word ∈ list, ∀ pattern, reading word legacy = some pattern →
      pattern ∈ patterns (addWords legacy bans list) ∨ (patterns (addWords legacy bans list)).card = maxIpFilters := by
  induction list generalizing bans with
  | nil => exact ⟨fun pattern member => Or.inl member, by simp⟩
  | cons word list hypothesis =>
    obtain ⟨sound', outcome⟩ := addIP_cases sound word legacy
    obtain ⟨only, each⟩ := hypothesis sound'
    have kept := patterns_subset_addWords sound' legacy list
    have bounded := card_patterns_le (sound_addWords legacy list sound')
    constructor
    · intro pattern member
      rcases only pattern member with before | ⟨other, later, spelled⟩
      · rcases outcome with ⟨_, added, spelled, joined⟩ | ⟨refused, _⟩
        · rw [joined, Finset.mem_insert] at before
          rcases before with rfl | before
          · exact Or.inr ⟨word, List.mem_cons_self, spelled⟩
          · exact Or.inl before
        · rw [refused] at before
          exact Or.inl before
      · exact Or.inr ⟨other, List.mem_cons_of_mem word later, spelled⟩
    · intro other listed pattern spelled
      rcases List.mem_cons.mp listed with rfl | later
      · rcases outcome with ⟨_, added, spelled', joined⟩ | ⟨refused, full⟩
        · rw [spelled, Option.some.injEq] at spelled'
          subst spelled'
          refine Or.inl (kept ?_)
          rw [joined]
          exact Finset.mem_insert_self _ _
        · have all : patterns bans ⊆ patterns (addWords legacy bans (other :: list)) :=
            patterns_subset_addWords sound legacy (other :: list)
          refine Or.inr (Nat.le_antisymm bounded ?_)
          rw [← (full pattern spelled).2]
          exact Finset.card_le_card all
      · exact each other later pattern spelled

/-! ## A file that was edited by hand -/

/-- Only whole words of the text make bans, and every word that ends in the buffer does, as long as the list is not full. -/
structure BansOfText (text : CString) (bans : BanList) : Prop where
  only : ∀ pattern ∈ patterns bans, ∃ front word back, text = front ++ (word ++ back) ∧ WordAt front word back ∧
    reading word false = some pattern
  each : ∀ front word back pattern, text = front ++ (word ++ back) → WordAt front word back → InBuffer front word back →
    reading word false = some pattern → pattern ∈ patterns bans ∨ (patterns bans).card = maxIpFilters

theorem patterns_nil (active : Bool) : patterns ⟨active, []⟩ = ∅ := rfl

theorem beforeGameInit_edited {filterBan : CString} (on : filterBanOff filterBan = false) {server : Server} {text : CString}
    (file : server.file = some text) (imported : server.gBanIPs = []) :
    BansOfText text (beforeGameInit filterBan server).bans := by
  have none : importWords [] = [] := by decide
  obtain ⟨list, _⟩ := beforeGameInit_eq on server
  rw [imported, none, file] at list
  obtain ⟨only, each⟩ := patterns_addWords (sound_nil false) false (fileWords (some text))
  rw [list]
  constructor
  · intro pattern member
    rcases only pattern member with before | ⟨cut, listed, spelled⟩
    · cases before
    · obtain ⟨word, member, rfl⟩ := List.mem_map.mp listed
      obtain ⟨front, back, parts, found⟩ := mem_words.mp (words_readBuffer text word member)
      rw [reading_take] at spelled
      exact ⟨front, word, back, parts, found, spelled⟩
  · rintro front word back pattern rfl found inside spelled
    have listed := List.mem_map_of_mem (f := fun word => word.take 63) (mem_words_readBuffer found inside)
    exact each _ listed pattern ((reading_take word false).trans spelled)

theorem beforeGameInit_edited_sample : BansOfText "10.20\r\n152.12.34.5678 1.2.3.4".toList (beforeGameInit "".toList
    ⟨⟨false, []⟩, some "10.20\r\n152.12.34.5678 1.2.3.4".toList, [], []⟩).bans :=
  beforeGameInit_edited (by decide) (by rfl) (by rfl)

/-! ## The import of `g_banIPs` -/

/-- The part of the value whose words are whole in `list[MAX_CVAR_VALUE_STRING]`. -/
def wholeFront (value : CString) : CString :=
  if (value.drop (maxCvarValueString - 1)).head?.all separator then qStrncpyz value maxCvarValueString
  else (qStrncpyz value maxCvarValueString).rdropWhile fun c => !separator c

/-- What `list` has of the word that its end cuts. -/
def stump (value : CString) : CString :=
  if (value.drop (maxCvarValueString - 1)).head?.all separator then []
  else (qStrncpyz value maxCvarValueString).rtakeWhile fun c => !separator c

/-- That word, and the words that `list` has nothing of. -/
def behind (value : CString) : CString := value.drop (wholeFront value).length

theorem wholeFront_begins (value : CString) : wholeFront value <+: value := by
  rw [wholeFront]
  split
  · exact List.take_prefix ..
  · exact (List.rdropWhile_prefix _ _).trans (List.take_prefix ..)

theorem words_cut (value : CString) :
    words value = words (wholeFront value) ++ words (behind value) ∧
      words (qStrncpyz value maxCvarValueString) =
        words (wholeFront value) ++ if stump value = [] then [] else [stump value] := by
  have parts : wholeFront value ++ behind value = value := List.prefix_iff_eq_append.mp (wholeFront_begins value)
  by_cases between : (value.drop (maxCvarValueString - 1)).head?.all separator = true
  · have front : wholeFront value = value.take (maxCvarValueString - 1) := by
      rw [wholeFront, if_pos between, qStrncpyz]
    have rest : behind value = value.drop (maxCvarValueString - 1) := by
      rw [front] at parts
      exact List.append_cancel_left (parts.trans (List.take_append_drop ..).symm)
    have ends : ∀ c ∈ (behind value).head?, separator c = true := by
      rw [rest]
      exact (Option.all_eq_true _ _).mp between
    constructor
    · rw [← words_append_of_ends _ ends, parts]
    · rw [stump, if_pos between, if_pos rfl, List.append_nil, wholeFront, if_pos between]
  · have front : wholeFront value = (qStrncpyz value maxCvarValueString).rdropWhile fun c => !separator c := by
      rw [wholeFront, if_neg between]
    have last : stump value = (qStrncpyz value maxCvarValueString).rtakeWhile fun c => !separator c := by
      rw [stump, if_neg between]
    have starts : ∀ c ∈ (wholeFront value).getLast?, separator c = true := by
      rw [front]
      exact separator_of_rdropWhile _
    have whole : ∀ c ∈ stump value, separator c = false := by
      intro c member
      rw [last] at member
      simpa using List.mem_rtakeWhile_imp member
    constructor
    · rw [← words_append_of_starts starts, parts]
    · rw [← words_of_word whole, ← words_append_of_starts starts, front, last, List.rdropWhile_append_rtakeWhile]

/-- As the game writes the value: its words are addresses. -/
def Retail (value : CString) : Prop := ∀ word ∈ words value, ∃ ip, word = dottedQuad ip

/-- No ban of the value is lost, and there is none that the value does not have. -/
structure Imported (value : CString) (bans : BanList) : Prop where
  only : ∀ pattern ∈ patterns bans, ∃ word ∈ words value, reading word true = some pattern
  each : ∀ word ∈ words value, ∃ pattern ∈ patterns bans, reading word true = some pattern

/-- The end of `list` takes nothing away that it does not have elsewhere: every ban that it cuts or leaves out stands in front of
it as well, and what is left of the word that it cuts is no ban, or one of the value. -/
structure Survives (value : CString) : Prop where
  repeated : ∀ word ∈ words (behind value), ∃ other ∈ stump value :: words (wholeFront value),
    reading other true = reading word true
  harmless : ∀ pattern ∈ reading (stump value) true, ∃ word ∈ words value, reading word true = some pattern

theorem survives_of_fits {value : CString} (fits : value.length < maxCvarValueString) : Survives value := by
  have whole : value.drop (maxCvarValueString - 1) = [] := List.drop_eq_nil_of_le (by rw [maxCvarValueString] at *; omega)
  have front : wholeFront value = value := by
    rw [wholeFront, whole, qStrncpyz_of_fits fits]
    rfl
  have last : stump value = [] := by
    rw [stump, whole]
    rfl
  constructor
  · intro word member
    rw [behind, front, List.drop_length] at member
    cases member
  · intro pattern spelled
    rw [last] at spelled
    cases spelled

/-- The words of the value as far as `list` holds it. -/
theorem mem_patterns_import {filterBan : CString} (on : filterBanOff filterBan = false) {server : Server}
    (fresh : fileWords server.file = []) (pattern : Pattern) :
    pattern ∈ patterns (beforeGameInit filterBan server).bans ↔
      ∃ word ∈ words (qStrncpyz server.gBanIPs maxCvarValueString), reading word true = some pattern := by
  obtain ⟨list, _⟩ := beforeGameInit_eq on server
  rw [fresh] at list
  obtain ⟨only, each⟩ := patterns_addWords (sound_nil false) true (importWords server.gBanIPs)
  have room : (patterns (addWords true ⟨false, []⟩ (importWords server.gBanIPs))).card < maxIpFilters := by
    have few := card_patterns_addWords (sound_nil false) true (importWords server.gBanIPs)
    have short := length_qStrncpyz_lt server.gBanIPs (by decide : 0 < maxCvarValueString)
    have fewer := length_words_le (qStrncpyz server.gBanIPs maxCvarValueString)
    have buffer : maxCvarValueString < maxIpFilters := by decide
    rw [patterns_nil, Finset.card_empty, importWords, List.length_map] at few
    rw [importWords]
    omega
  rw [list]
  constructor
  · intro member
    rcases only pattern member with before | ⟨cut, listed, spelled⟩
    · cases before
    · obtain ⟨word, member, rfl⟩ := List.mem_map.mp listed
      exact ⟨word, member, (reading_take word true).symm.trans spelled⟩
  · rintro ⟨word, member, spelled⟩
    have listed := List.mem_map_of_mem (f := fun word => word.take 63) member
    rcases each _ listed pattern ((reading_take word true).trans spelled) with added | full
    · exact added
    · omega

/-- What the game writes for its list. -/
def retailText (addresses : List Ipv4) : CString := addresses.flatMap fun ip => dottedQuad ip ++ [' ']

theorem words_retailText (addresses : List Ipv4) : words (retailText addresses) = addresses.map dottedQuad := by
  induction addresses with
  | nil => rfl
  | cons ip addresses hypothesis =>
    have plain : ∀ c ∈ dottedQuad ip, separator c = false := plain_dotted ((octetsOf ip).map .exact)
    rw [retailText, List.flatMap_cons, List.append_assoc, List.singleton_append, words_append plain (by decide),
      if_neg (dottedQuad_ne_nil ip), List.singleton_append, List.map_cons, ← hypothesis, retailText]

theorem retail_retailText (addresses : List Ipv4) : Retail (retailText addresses) := by
  intro word member
  rw [words_retailText] at member
  obtain ⟨ip, _, rfl⟩ := List.mem_map.mp member
  exact ⟨ip, rfl⟩

/-- The value is taken over as it was if and only if it survives the end of the buffer. -/
theorem imported_iff {filterBan : CString} (on : filterBanOff filterBan = false) {server : Server}
    (fresh : server.file.getD [] = []) (retail : Retail server.gBanIPs) :
    Imported server.gBanIPs (beforeGameInit filterBan server).bans ↔ Survives server.gBanIPs := by
  have noWords : fileWords server.file = [] := by
    cases file : server.file with
    | none => rfl
    | some text =>
      rw [file, Option.getD_some] at fresh
      rw [fresh]
      rfl
  have listed (pattern : Pattern) := mem_patterns_import on noWords pattern
  obtain ⟨whole, held⟩ := words_cut server.gBanIPs
  have readable : ∀ word ∈ words server.gBanIPs, ∃ pattern, reading word true = some pattern := by
    intro word member
    obtain ⟨ip, rfl⟩ := retail word member
    exact ⟨_, by rw [reading_true, ExactBans.reading_dottedQuad, Option.map_some]⟩
  have holds {word : CString} {pattern : Pattern} (spelled : reading word true = some pattern) :
      word ∈ words (qStrncpyz server.gBanIPs maxCvarValueString) ↔
        word ∈ stump server.gBanIPs :: words (wholeFront server.gBanIPs) := by
    have present : word ≠ [] := by
      rintro rfl
      cases spelled
    rw [held, List.mem_append, List.mem_cons, or_comm]
    by_cases empty : stump server.gBanIPs = []
    · simp [empty, present]
    · simp [empty]
  constructor
  · rintro ⟨only, each⟩
    constructor
    · intro word later
      obtain ⟨pattern, member, spelled⟩ := each word (by rw [whole]; exact List.mem_append_right _ later)
      obtain ⟨other, front, same⟩ := (listed pattern).mp member
      exact ⟨other, (holds same).mp front, same.trans spelled.symm⟩
    · intro pattern spelled
      exact only pattern ((listed pattern).mpr ⟨_, (holds spelled).mpr List.mem_cons_self, spelled⟩)
  · rintro ⟨repeated, harmless⟩
    constructor
    · intro pattern member
      obtain ⟨word, front, spelled⟩ := (listed pattern).mp member
      rcases List.mem_cons.mp ((holds spelled).mp front) with rfl | front
      · exact harmless pattern spelled
      · exact ⟨word, by rw [whole]; exact List.mem_append_left _ front, spelled⟩
    · intro word member
      obtain ⟨pattern, spelled⟩ := readable word member
      rw [whole, List.mem_append] at member
      rcases member with front | later
      · exact ⟨pattern, (listed pattern).mpr ⟨word, (holds spelled).mpr (List.mem_cons_of_mem _ front), spelled⟩, spelled⟩
      · obtain ⟨other, front, same⟩ := repeated word later
        have there : reading other true = some pattern := same.trans spelled
        exact ⟨pattern, (listed pattern).mpr ⟨other, (holds there).mpr front, there⟩, spelled⟩

/-- The first start of the proxy, with what the game left in `g_banIPs`. -/
def firstStart (addresses : List Ipv4) : Server := ⟨⟨false, []⟩, none, retailText addresses, []⟩

def twoAddresses : List Ipv4 := [⟨152, 0, 24, 34⟩, ⟨10, 20, 30, 0⟩]

theorem imported_two : Imported (retailText twoAddresses) (beforeGameInit "1".toList (firstStart twoAddresses)).bans :=
  (@imported_iff "1".toList (by decide) (firstStart twoAddresses) rfl (retail_retailText twoAddresses)).mpr
    (survives_of_fits (by decide))

/-- Twenty-one addresses of one network, and a last one whose second octet starts behind the end of `list`. -/
def longList : List Ipv4 := (List.range 21).map (fun i => ⟨10, 20, 30, .ofNat (10 + i)⟩) ++ [⟨152, 12, 34, 56⟩]

/-- The last address becomes the ban of all that start with 152. -/
theorem longList_not_imported :
    Retail (retailText longList) ∧ (retailText longList).length ≤ 1023 ∧ filterBanOff "1".toList = false ∧
      ¬ Imported (retailText longList) (beforeGameInit "1".toList (firstStart longList)).bans := by
  have on : filterBanOff "1".toList = false := by decide
  refine ⟨retail_retailText longList, by decide +kernel, on, ?_⟩
  rintro ⟨only, _⟩
  have cut : reading "152".toList true = some ⟨[some 152, none, none, none], rfl⟩ := by decide
  have held : "152".toList ∈ words (qStrncpyz (retailText longList) maxCvarValueString) := by decide +kernel
  obtain ⟨word, member, spelled⟩ := only _ ((@mem_patterns_import "1".toList on (firstStart longList) rfl _).mpr ⟨_, held, cut⟩)
  rw [words_retailText] at member
  have others : ∀ word ∈ longList.map dottedQuad, reading word true ≠ some ⟨[some 152, none, none, none], rfl⟩ := by
    decide +kernel
  exact others word member spelled

end YbeProxy.BanWords
