import YbeProxy.CleanNames
import YbeProxy.ModuleTexts

/-!
# The commands the module writes

The proxy puts names and arguments of clients, and teams of the console, into the texts of commands. Who gets such a text
tokenizes it: it reads the command that the proxy wrote, with the texts it put in as whole arguments, and no other one.
-/

namespace YbeProxy.CommandTexts
open YbeProxy.Strings YbeProxy.KeyValueText YbeProxy.Infostrings YbeProxy.Userinfo YbeProxy.CleanNames
open YbeProxy.ClientCommands YbeProxy.VmMain YbeProxy.Runs YbeProxy.Sessions YbeProxy.ModuleTexts
open YbeProxy.Connection (Slot slotZero)
open YbeProxy.Cmd (cmdTokenizeString2 tokensFrom word skipBlanks bigInfoString)

def Unquoted (text : CString) : Prop := '"' ∉ text

instance : DecidablePred Unquoted := fun _ => inferInstanceAs (Decidable (¬ _))

theorem Unquoted.append {s t : CString} (first : Unquoted s) (second : Unquoted t) : Unquoted (s ++ t) :=
  fun member => (List.mem_append.mp member).elim first second

theorem unquoted_flatten {parts : List CString} (each : ∀ part ∈ parts, Unquoted part) : Unquoted parts.flatten := by
  intro member
  obtain ⟨part, listed, inside⟩ := List.mem_flatten.mp member
  exact each part listed inside

theorem Unquoted.of_subset {s t : CString} (unquoted : Unquoted t) (subset : s ⊆ t) : Unquoted s :=
  fun member => unquoted (subset member)

/-! ## Tokens -/

theorem unquoted_word (text : CString) : Unquoted (word false text).1 := by
  induction text with
  | nil => exact List.not_mem_nil
  | cons c rest hypothesis =>
    rw [word]
    split
    · exact List.not_mem_nil
    · rename_i goesOn
      simp only [Bool.not_false, Bool.true_and, Bool.or_eq_true, decide_eq_true_eq, not_or] at goesOn
      rintro (_ | ⟨_, member⟩)
      · exact goesOn.1.2 rfl
      · exact hypothesis member

/-- No token has a quote in it, quoted or not. -/
theorem unquoted_tokensFrom (room : Nat) (text : CString) : ∀ token ∈ tokensFrom false room text, Unquoted token := by
  induction room generalizing text with
  | zero => exact List.forall_mem_nil _
  | succ room hypothesis =>
    rw [tokensFrom]
    split
    · exact List.forall_mem_nil _
    · rename_i c rest _
      split
      · refine List.forall_mem_cons.mpr ⟨fun member => ?_, hypothesis _⟩
        have other := List.mem_takeWhile_imp member
        simp at other
      · exact List.forall_mem_cons.mpr ⟨unquoted_word _, hypothesis _⟩

theorem tokensFrom_quoted (room : Nat) {message : CString} (unquoted : Unquoted message) (after : CString) :
    tokensFrom false (room + 1) ('"' :: (message ++ '"' :: after)) = message :: tokensFrom false room after := by
  have inside : ∀ c ∈ message, decide (c ≠ '"') = true := by
    intro c member
    refine decide_eq_true ?_
    rintro rfl
    exact unquoted member
  have start : skipBlanks ('"' :: (message ++ '"' :: after)) = '"' :: (message ++ '"' :: after) :=
    Cmd.skipBlanks_of_token rfl (by simp [Cmd.opensComment])
  rw [tokensFrom, start]
  simp only [Bool.not_false, Bool.true_and, decide_true, if_true]
  rw [List.takeWhile_append_of_pos inside, List.dropWhile_append_of_pos inside]
  simp

/-- A text that a plain command can be: a word that holds no quote. -/
structure Verb (verb : CString) : Prop where
  plain : Cmd.Plain verb
  nonempty : verb ≠ []
  unquoted : Unquoted verb

theorem verb_print : Verb "print".toList := ⟨⟨by decide, by decide, by decide⟩, by decide, by decide⟩

theorem Verb.tokensFrom_append {verb : CString} (isVerb : Verb verb) (room : Nat) (rest : CString) :
    tokensFrom false (room + 1) (verb ++ ' ' :: rest) = verb :: tokensFrom false room rest := by
  have ends : ∀ c ∈ (' ' :: rest).head?, c = ' ' := by simp
  rw [isVerb.plain.tokensFrom_append ends isVerb.nonempty (.inr isVerb.unquoted), Cmd.tokensFrom_space]

/-- A text of a client behind a command is one argument of it. -/
theorem tokens_of_quoted {verb message : CString} (isVerb : Verb verb) (unquoted : Unquoted message)
    (short : (verb ++ ' ' :: '"' :: (message ++ ['"'])).length < bigInfoString) :
    cmdTokenizeString2 (verb ++ ' ' :: '"' :: (message ++ ['"'])) false = [verb, message] := by
  have room : Cmd.maxStringTokens = 1022 + 1 + 1 := rfl
  rw [cmdTokenizeString2, qStrncpyz_of_fits short, room, isVerb.tokensFrom_append, tokensFrom_quoted 1022 unquoted,
    Cmd.tokensFrom_nil]

theorem verb_decimal (n : Nat) : Verb (decimal n) := by
  have other {c : Char} (not : isDigit c = false) : c ∉ decimal n :=
    fun member => by simp [Addresses.isDigit_of_mem_decimal member] at not
  refine ⟨⟨fun c member => ?_, ?_, ?_⟩, ?_, other rfl⟩
  · have digit := Addresses.isDigit_of_mem_decimal member
    simp only [isDigit, Bool.and_eq_true, decide_eq_true_eq, Char.le_def, UInt32.le_iff_toNat_le] at digit
    have low : 48 ≤ c.toNat := digit.1
    simp only [Cmd.blank, decide_eq_false_iff_not]
    omega
  · exact fun found => other rfl (found.subset (List.mem_cons_self (a := '/')))
  · exact fun found => other rfl (found.subset (List.mem_cons_self (a := '/')))
  · exact Addresses.decimal_ne_nil n

theorem unquoted_decimalInt (n : Int) : Unquoted (decimalInt n) := by
  have digits := (verb_decimal n.natAbs).unquoted
  rw [decimalInt]
  split
  · exact List.not_mem_cons_of_ne_of_not_mem (by decide) digits
  · exact digits

/-! ## Names -/

theorem mem_of_pair {s : CString} {pair : CString × CString} (member : pair ∈ pairs '\\' s) : pair.2 ⊆ s := by
  induction s using pairs_induction '\\' with
  | none s nothing =>
    rw [pairs_of_none nothing] at member
    cases member
  | pair s key value t keyWord valueWord delimited split hypothesis =>
    have skipped : skip '\\' s ⊆ s := by
      cases s with
      | nil => exact List.Subset.refl _
      | cons c rest =>
        rw [skip]
        split
        · exact List.subset_cons_self c rest
        · exact List.Subset.refl _
    rw [split] at skipped
    rw [pairs_of_split keyWord valueWord delimited split] at member
    rcases List.mem_cons.mp member with rfl | later
    · exact fun c inside => skipped (by simp [inside])
    · exact fun c inside => skipped (by simp [hypothesis later inside])

theorem infoValueForKey_subset (s key : CString) : infoValueForKey s key ⊆ s := by
  rw [infoValueForKey_eq, lookup]
  cases found : (pairs '\\' s).find? fun pair => decide (qStricmp key pair.1 = 0) with
  | none => exact List.nil_subset s
  | some pair => exact mem_of_pair (List.mem_of_find?_eq_some found)

theorem unquoted_proxyClientCleanName {name : CString} (unquoted : Unquoted name) :
    Unquoted (proxyClientCleanName name maxNetname) := by
  rw [proxyClientCleanName_eq]
  split
  · decide
  · have kept : visibleName name ⊆ keptName (trimmed name) := List.take_subset _ _
    exact unquoted.of_subset (List.Subset.trans kept (List.Subset.trans (keptName_sublist _).subset (trimmed_suffix name).subset))

theorem unquoted_mark (number : Nat) : Unquoted (mark number) := by
  intro member
  rcases mark_digits member with same | same | same | same <;> revert same <;> decide

theorem unquoted_candidate {name : CString} (unquoted : Unquoted name) {number : Nat} (small : number < 100) :
    Unquoted (candidate name number) := by
  rw [candidate_eq small]
  exact (unquoted.of_subset (numberedBase_start name).subset).append (unquoted_mark number)

theorem unquoted_cleanName (env : Environment) (clientNum : Nat) {userinfo : CString} (unquoted : Unquoted userinfo) :
    Unquoted (cleanName env clientNum userinfo) := by
  have clean := unquoted_proxyClientCleanName (unquoted.of_subset (infoValueForKey_subset userinfo "name".toList))
  simp only [cleanName]
  split
  · exact clean
  · rcases uniqueName_cases env.players clientNum _ with ⟨_, same⟩ | ⟨number, small, _, _, same⟩
    · rw [same]
      exact clean
    · rw [same]
      exact unquoted_candidate clean small

/-- A name that fits in its buffer and has no quote. -/
def GoodName (name : CString) : Prop := ShortName name ∧ Unquoted name

/-- The name of a map that the engine has loaded, in one command of the console. -/
structure MapName (name : CString) : Prop extends Verb name where
  whole : ';' ∉ name

/-- What the engine holds comes from tokens: the arguments where it has tokenized a line, the userinfos and its map. -/
structure Tokenized (typed : Prop) (engine : Engine) : Prop where
  tokens : typed → ∃ line, engine.argv = cmdTokenizeString2 line false
  userinfos : ∀ n, Unquoted (engine.userinfo n).text
  mapname : MapName engine.mapname

theorem writes_good {typed : Prop} {engine : Engine} (tokenized : Tokenized typed engine) : Writes GoodName engine := by
  intro k validated name written
  refine ⟨writes_short engine k validated name written, ?_⟩
  rw [sanitize] at written
  split at written
  · cases written
  · split at written
    · cases written
    · dsimp only at written
      split at written
      all_goals
        obtain rfl := Option.some.inj written
        exact unquoted_cleanName _ _ (tokenized.userinfos k)

theorem Tokenized.unquoted_arg {typed : Prop} {engine : Engine} (tokenized : Tokenized typed engine) (isTyped : typed)
    (n bufferLength : Nat) : Unquoted (argv engine.argv n bufferLength) := by
  obtain ⟨line, same⟩ := tokenized.tokens isTyped
  refine Unquoted.of_subset (t := Cmd.cmdArgv engine.argv n) ?_ (List.take_subset _ _)
  rw [Cmd.cmdArgv, List.getD_eq_getElem?_getD]
  cases found : engine.argv[n]? with
  | none => exact List.not_mem_nil
  | some token =>
    rw [same] at found
    exact unquoted_tokensFrom _ _ token (List.mem_of_getElem? found)

/-! ## Reasons -/

theorem unquoted_fieldReason {keys : List CString} {field : UserinfoField} (named : Unquoted field.name) {invalid : CString}
    (found : fieldReason keys field = some invalid) : Unquoted invalid := by
  have number (n : Nat) : Unquoted (decimal n) := (verb_decimal n).unquoted
  have texts : Unquoted " field not found".toList ∧ Unquoted "Too many ".toList ∧ Unquoted " fields (".toList ∧
    Unquoted "/".toList ∧ Unquoted ")".toList := by decide
  obtain ⟨notFound, tooMany, fields, slash, close⟩ := texts
  rw [fieldReason] at found
  split at found
  · obtain rfl := Option.some.inj found
    exact (named.append notFound).of_subset (List.take_subset _ _)
  · split at found
    · obtain rfl := Option.some.inj found
      exact (((((tooMany.append named).append fields).append (number _)).append slash).append (number _)).append close
        |>.of_subset (List.take_subset _ _)
    · cases found

theorem unquoted_validate {userinfo invalid : CString} (found : validate userinfo = some invalid) : Unquoted invalid := by
  have names : ∀ field ∈ userinfoFields, Unquoted field.name := by decide
  have literals : ∀ text ∈ ["Userinfo too short", "Userinfo too long", "Missing leading slash", "Trailing slash",
    "Bad number of slashes", "Invalid characters found"], Unquoted text.toList := by decide
  rw [validate] at found
  split at found
  · exact Option.some.inj found ▸ literals _ (by decide)
  split at found
  · exact Option.some.inj found ▸ literals _ (by decide)
  split at found
  · exact Option.some.inj found ▸ literals _ (by decide)
  split at found
  · exact Option.some.inj found ▸ literals _ (by decide)
  split at found
  · exact Option.some.inj found ▸ literals _ (by decide)
  split at found
  · exact Option.some.inj found ▸ literals _ (by decide)
  · obtain ⟨field, listed, reason⟩ := List.exists_of_findSome?_eq_some found
    exact unquoted_fieldReason (names field listed) reason

theorem unquoted_reason {reason : CString} (refuses : Reason reason) : Unquoted reason := by
  rcases refuses with rfl | rfl | ⟨userinfo, invalid, found, rfl⟩
  · decide
  · decide
  · have front : Unquoted "Failed userinfo validation: ".toList := by decide
    exact (front.append (unquoted_validate found)).of_subset (List.take_subset _ _)

/-! ## Server commands -/

/-- A client reads one text, which it prints or shows in its chat. -/
def Tells (command : CString) : Prop :=
  ∃ verb ∈ ["print".toList, "chat".toList], ∃ message, cmdTokenizeString2 command false = [verb, message]

theorem tells_of_quoted (verb message : CString) {text : CString} (listed : verb ∈ ["print".toList, "chat".toList])
    (shape : text = verb ++ ' ' :: '"' :: (message ++ ['"'])) (unquoted : Unquoted message)
    (short : text.length ≤ maxServerCommand) : Tells text := by
  have verbs : ∀ verb ∈ ["print".toList, "chat".toList], Verb verb :=
    List.forall_mem_cons.mpr ⟨verb_print,
      List.forall_mem_singleton.mpr ⟨⟨by decide, by decide, by decide⟩, by decide, by decide⟩⟩
  have size : maxServerCommand = 1022 ∧ bigInfoString = 8192 := ⟨rfl, rfl⟩
  subst shape
  exact ⟨verb, listed, message, tokens_of_quoted (verbs verb listed) unquoted (by omega)⟩

/-- The engine takes the command whole, and a client reads one text. -/
structure Sound (command : CString) : Prop where
  fits : command.length ≤ maxServerCommand
  tells : Tells command

theorem sound_of_print {text : CString} (short : text.length ≤ 1014) (unquoted : Unquoted text) :
    Sound ("print \"".toList ++ text ++ ['"']) := by
  have front : "print \"".toList = "print".toList ++ [' ', '"'] := by decide
  have size : maxServerCommand = 1022 ∧ "print".toList.length = 5 := by decide
  have shape : "print \"".toList ++ text ++ ['"'] = "print".toList ++ ' ' :: '"' :: (text ++ ['"']) := by
    rw [front]
    simp only [List.append_assoc, List.cons_append, List.nil_append]
  have fits : ("print \"".toList ++ text ++ ['"']).length ≤ maxServerCommand := by
    rw [shape]
    simp only [List.length_append, List.length_cons, List.length_nil]
    omega
  exact ⟨fits, tells_of_quoted "print".toList text (by decide) shape unquoted fits⟩

theorem tells_cheaterText {name : CString} (good : GoodName name) : Tells (cheaterText name) := by
  have front : "chat \"^3(Anti-Cheat system) ^7".toList = "chat".toList ++ ' ' :: '"' :: "^3(Anti-Cheat system) ^7".toList := by
    decide
  have behind : "^3 got kicked cause of cheating^7\"".toList = "^3 got kicked cause of cheating^7".toList ++ ['"'] := by decide
  have texts : Unquoted "^3(Anti-Cheat system) ^7".toList ∧ Unquoted "^3 got kicked cause of cheating^7".toList := by decide
  refine tells_of_quoted "chat".toList _ (by decide) ?_ ((texts.1.append good.2).append texts.2) (length_cheaterText good.1)
  change _ ++ name ++ _ = _
  rw [front, behind]
  simp only [List.append_assoc, List.cons_append]

theorem tells_noClientText {arg : CString} (unquoted : Unquoted arg) (short : arg.length < maxCvarValueString) :
    Tells (noClientText arg) := by
  have front : "print \"there is no client named '".toList = "print".toList ++ ' ' :: '"' :: "there is no client named '".toList := by
    decide
  have behind : "' currently on the server.\n\"".toList = "' currently on the server.\n".toList ++ ['"'] := by decide
  have texts : Unquoted "there is no client named '".toList ∧ Unquoted "' currently on the server.\n".toList := by decide
  refine tells_of_quoted "print".toList _ (by decide) ?_ ((texts.1.append unquoted).append texts.2) (length_noClientText short)
  change _ ++ arg ++ _ = _
  rw [front, behind]
  simp only [List.append_assoc, List.cons_append]

/-! ## Commands of the console -/

/-- The command buffer of the engine ends a line at a semicolon or a line break. -/
def Unbroken (line : CString) : Prop := ∀ c ∈ line, c ∉ [';', '\n', '\r']

instance : DecidablePred Unbroken := fun _ => inferInstanceAs (Decidable (∀ _ ∈ _, _))

theorem Unbroken.append {s t : CString} (first : Unbroken s) (second : Unbroken t) : Unbroken (s ++ t) :=
  List.forall_mem_append.mpr ⟨first, second⟩

theorem Unbroken.cons {c : Char} {s : CString} (first : c ∉ [';', '\n', '\r']) (second : Unbroken s) : Unbroken (c :: s) :=
  List.forall_mem_cons.mpr ⟨first, second⟩

/-- What the proxy lets the console do: it moves a client to the team that was typed, stops the server or loads its map. -/
inductive Meant (engine : Engine) : List CString → Prop
  | forceTeam (n : Slot) : Meant engine ["forceteam".toList, decimal n, argv engine.argv 2 maxTokenChars]
  | killserver : Meant engine ["killserver".toList]
  | map : Meant engine ["map".toList, qStrncpyz engine.mapname Restart.maxQPath]

/-- The text is made of lines, and each of them is read as a command that is meant. -/
def Orders (engine : Engine) (text : CString) : Prop :=
  ∃ lines : List CString, text = lines.flatMap (· ++ ['\n']) ∧
    ∀ line ∈ lines, Unbroken line ∧ Meant engine (cmdTokenizeString2 line false)

theorem Verb.tokensFrom_last {verb : CString} (isVerb : Verb verb) (room : Nat) :
    tokensFrom false (room + 1) verb = [verb] := by
  have last := @Cmd.Plain.tokensFrom_append false verb [] (by simp) isVerb.plain isVerb.nonempty (.inr isVerb.unquoted) room
  rwa [List.append_nil, Cmd.tokensFrom_nil] at last

theorem tokens_of_word {verb word : CString} (isVerb : Verb verb) (isWord : Verb word)
    (short : (verb ++ ' ' :: word).length < bigInfoString) : cmdTokenizeString2 (verb ++ ' ' :: word) false = [verb, word] := by
  have room : Cmd.maxStringTokens = 1022 + 1 + 1 := rfl
  rw [cmdTokenizeString2, qStrncpyz_of_fits short, room, isVerb.tokensFrom_append, isWord.tokensFrom_last]

theorem tokens_of_word_quoted {verb word message : CString} (isVerb : Verb verb) (isWord : Verb word) (unquoted : Unquoted message)
    (short : (verb ++ ' ' :: (word ++ ' ' :: '"' :: (message ++ ['"']))).length < bigInfoString) :
    cmdTokenizeString2 (verb ++ ' ' :: (word ++ ' ' :: '"' :: (message ++ ['"']))) false = [verb, word, message] := by
  have room : Cmd.maxStringTokens = 1021 + 1 + 1 + 1 := rfl
  rw [cmdTokenizeString2, qStrncpyz_of_fits short, room, isVerb.tokensFrom_append, isWord.tokensFrom_append,
    tokensFrom_quoted 1021 unquoted, Cmd.tokensFrom_nil]

theorem unbroken_decimal (n : Nat) : Unbroken (decimal n) := by
  intro c member listed
  have digit := Addresses.isDigit_of_mem_decimal member
  have apart : ∀ c ∈ [';', '\n', '\r'], isDigit c = false := by decide
  rw [apart c listed] at digit
  cases digit

/-- What `ForceTeamEveryone` looks for in a team is what could end its command. -/
theorem clean_of_whole {team : CString} (whole : breaksCommand team = false) : Unbroken team ∧ Unquoted team := by
  have clean : ∀ c ∈ team, c ∉ [';', '"', '\n', '\r'] := by simpa [breaksCommand] using whole
  have apart : ∀ c ∈ [';', '\n', '\r'], c ∈ [';', '"', '\n', '\r'] := by decide
  exact ⟨fun c member listed => clean c member (apart c listed), fun member => clean '"' member (by decide)⟩

theorem orders_forceTeamText {engine : Engine} (n : Slot) (whole : breaksCommand (argv engine.argv 2 maxTokenChars) = false) :
    Orders engine (forceTeamText n (argv engine.argv 2 maxTokenChars)) := by
  have meant := @Meant.forceTeam engine n
  have short : (argv engine.argv 2 maxTokenChars).length < maxTokenChars := length_qStrncpyz_lt _ (by decide)
  obtain ⟨unbroken, unquoted⟩ := clean_of_whole whole
  generalize argv engine.argv 2 maxTokenChars = team at meant short unbroken unquoted ⊢
  have isVerb : Verb "forceteam".toList := ⟨⟨by decide, by decide, by decide⟩, by decide, by decide⟩
  have digits : (decimal n).length ≤ 2 := length_decimal_le_two (Nat.lt_trans n.isLt (by decide))
  let line := "forceteam".toList ++ ' ' :: (decimal n ++ ' ' :: '"' :: (team ++ ['"']))
  have fits : line.length < bigInfoString := by
    have size : "forceteam".toList.length = 9 ∧ maxTokenChars = 1024 ∧ bigInfoString = 8192 := by decide
    simp only [line, List.length_append, List.length_cons, List.length_nil]
    omega
  refine ⟨[line], ?_, List.forall_mem_singleton.mpr ⟨?_, ?_⟩⟩
  · have parts : "forceteam ".toList = "forceteam".toList ++ [' '] ∧ " \"".toList = [' ', '"'] ∧ "\"\n".toList = ['"', '\n'] := by
      decide
    change _ ++ decimal n ++ _ ++ team ++ _ = _
    rw [parts.1, parts.2.1, parts.2.2, List.flatMap_singleton]
    simp only [line, List.append_assoc, List.cons_append, List.nil_append]
  · have verb : Unbroken "forceteam".toList := by decide
    have behind : Unbroken ['"'] := by decide
    exact verb.append (.cons (by decide) ((unbroken_decimal n).append (.cons (by decide) (.cons (by decide)
      (unbroken.append behind)))))
  · rw [tokens_of_word_quoted isVerb (verb_decimal n) unquoted fits]
    exact meant

/-- A name that is cut is a name. -/
theorem MapName.cut {name : CString} (isName : MapName name) : MapName (qStrncpyz name Restart.maxQPath) := by
  obtain ⟨⟨⟨visible, line, block⟩, nonempty, unquoted⟩, whole⟩ := isName
  have start : qStrncpyz name Restart.maxQPath <+: name := List.take_prefix _ _
  refine ⟨⟨⟨fun c member => visible c (start.subset member), ?_, ?_⟩, ?_, fun member => unquoted (start.subset member)⟩,
    fun member => whole (start.subset member)⟩
  · exact fun found => line (found.trans start.isInfix)
  · exact fun found => block (found.trans start.isInfix)
  · obtain ⟨c, rest, rfl⟩ := List.exists_cons_of_ne_nil nonempty
    exact List.cons_ne_nil c _

theorem MapName.unbroken {name : CString} (isName : MapName name) : Unbroken name := by
  intro c member listed
  have blanks : ∀ c ∈ [';', '\n', '\r'], c = ';' ∨ Cmd.blank c = true := by decide
  rcases blanks c listed with rfl | blank
  · exact isName.whole member
  · rw [isName.plain.1 c member] at blank
    cases blank

theorem orders_mapText {engine : Engine} (isName : MapName engine.mapname) (killserver : Bool) :
    Orders engine (mapText killserver (qStrncpyz engine.mapname Restart.maxQPath)) := by
  have meant := @Meant.map engine
  have cut := isName.cut
  have short : (qStrncpyz engine.mapname Restart.maxQPath).length < Restart.maxQPath := length_qStrncpyz_lt _ (by decide)
  generalize qStrncpyz engine.mapname Restart.maxQPath = name at meant cut short ⊢
  have isVerb : Verb "map".toList := ⟨⟨by decide, by decide, by decide⟩, by decide, by decide⟩
  have fits : ("map".toList ++ ' ' :: name).length < bigInfoString := by
    have size : "map".toList.length = 3 ∧ Restart.maxQPath = 64 ∧ bigInfoString = 8192 := by decide
    rw [List.length_append, List.length_cons]
    omega
  have loads : Unbroken ("map".toList ++ ' ' :: name) ∧ Meant engine (cmdTokenizeString2 ("map".toList ++ ' ' :: name) false) := by
    have verb : Unbroken "map".toList := by decide
    rw [tokens_of_word isVerb cut.toVerb fits]
    exact ⟨verb.append (.cons (by decide) cut.unbroken), meant⟩
  have parts : "map ".toList = "map".toList ++ [' '] ∧ "killserver\n".toList = "killserver".toList ++ ['\n'] ∧
      "\n".toList = ['\n'] := by decide
  cases killserver with
  | true =>
    have stops : cmdTokenizeString2 "killserver".toList false = ["killserver".toList] := by decide +kernel
    refine ⟨["killserver".toList, "map".toList ++ ' ' :: name], ?_, List.forall_mem_cons.mpr ⟨⟨by decide, ?_⟩,
      List.forall_mem_singleton.mpr loads⟩⟩
    · rw [mapText, if_pos rfl, parts.1, parts.2.1, parts.2.2]
      simp
    · rw [stops]
      exact .killserver
  | false =>
    refine ⟨["map".toList ++ ' ' :: name], ?_, List.forall_mem_singleton.mpr loads⟩
    rw [mapText, if_neg Bool.false_ne_true, parts.1, parts.2.2]
    simp

end YbeProxy.CommandTexts
