import YbeProxy.Cmd
import YbeProxy.Addresses
import YbeProxy.Userinfo

/-!
# Client commands

`Features/ClientCommands.cpp`: which command lines of a client reach the game, and the arguments that the game reads in
place of the client's. The checks on characters and on length read the arguments as `ConcatArgs` of
`Ports/game/g_cmds.cpp` joins them.
-/

namespace YbeProxy.ClientCommands
open YbeProxy.Strings YbeProxy.Infostrings YbeProxy.Addresses YbeProxy.Cmd YbeProxy.Userinfo

def maxStringChars : Nat := 1024
def maxTokenChars : Nat := 1024
def maxCvarValueString : Nat := 256
def maxCommandLength : Nat := 512
def gcOrdersCount : Int := 7

/-! ## Arguments -/

/-- `trap_Argv`: the token in a buffer of the caller. -/
def argv (tokens : List CString) (n bufferLength : Nat) : CString := qStrncpyz (cmdArgv tokens n) bufferLength

/-- The loop of `ConcatArgs`, behind the line so far. -/
def concatLoop : CString → List CString → CString
  | line, [] => line
  | line, token :: rest =>
    let arg := qStrncpyz token maxStringChars
    if line.length + arg.length ≥ maxStringChars - 1 then line
    else concatLoop (line ++ arg ++ if rest = [] then [] else [' ']) rest

def concatArgs (tokens : List CString) (start : Nat) : CString := concatLoop [] (tokens.drop start)

/-- All the arguments with a space between two, in no buffer. -/
def joined (args : List CString) : CString := [' '].intercalate args

/-- Where the arguments fit in the line, none is cut or left out. -/
theorem concatLoop_eq {line : CString} {args : List CString} (fits : line.length + cost args < maxStringChars) :
    concatLoop line args = line ++ joined args := by
  have size : maxStringChars = 1024 := rfl
  induction args generalizing line with
  | nil => simp [concatLoop, joined, List.intercalate]
  | cons token rest hypothesis =>
    simp only [cost, List.map_cons, List.sum_cons] at fits
    have whole : qStrncpyz token maxStringChars = token := qStrncpyz_of_fits (by omega)
    rw [concatLoop, whole, if_neg (by omega)]
    cases rest with
    | nil => simp [concatLoop, joined, List.intercalate]
    | cons next rest =>
      rw [if_neg (List.cons_ne_nil next rest), hypothesis]
      · simp [joined, List.intercalate_cons_cons]
      · simp only [cost, List.map_cons, List.sum_cons, List.length_append, List.length_singleton] at fits ⊢
        omega

theorem mem_joined {args : List CString} {token : CString} (listed : token ∈ args) {c : Char} (member : c ∈ token) :
    c ∈ joined args := by
  induction args with
  | nil => cases listed
  | cons first rest hypothesis =>
    cases rest with
    | nil =>
      obtain rfl := List.mem_singleton.mp listed
      simpa [joined] using member
    | cons next rest =>
      rw [joined, List.intercalate_cons_cons, List.mem_append, List.mem_append]
      rcases List.mem_cons.mp listed with rfl | later
      · exact Or.inl (Or.inl member)
      · exact Or.inr (hypothesis later)

theorem concatArgs_eq {line : CString} (short : line.length < maxStringChars) :
    concatArgs (cmdTokenizeString2 line false) 1 = joined ((cmdTokenizeString2 line false).drop 1) := by
  have room := cost_cmdTokenizeString2 line
  cases tokens : cmdTokenizeString2 line false with
  | nil => rfl
  | cons name args =>
    rw [tokens] at room
    simp only [cost, List.map_cons, List.sum_cons] at room
    refine concatLoop_eq ?_
    simp only [List.length_nil, cost, List.drop_succ_cons, List.drop_zero]
    omega

/-! ## Allowed commands -/

structure Client where
  cleanName : CString
  muted : Bool

structure Server where
  svMaxclients : Int
  proxySvDisableKillCmd : Bool
  proxySvMaxCallVoteMapRestartValue : Int
  players : Nat → CString

inductive Request
  | sendServerCommand (clientNum : Int) (text : CString)
  | dropClient (clientNum : Int) (reason : CString)
  deriving DecidableEq

/-- Compared whole and without case. -/
def named (text : CString) (name : String) : Bool := qStricmp text name.toList = 0

def sayCmd (cmd : CString) : Bool := named cmd "say" || named cmd "say_team" || named cmd "tell"

/-- A name as `ClientNumberFromName` compares it. -/
def bareName (name : CString) : CString := qStripColor (qStrncpyz name maxNetname)

/-- `ClientNumberFromName`; none stands for -1. -/
def clientNumberFromName (players : Nat → CString) (name : CString) : Option Nat :=
  (List.range maxClients).find? fun i => playerInfo players i ≠ [] &&
    qStricmp (bareName (infoValueForKey (playerInfo players i) "n".toList)) (bareName name) = 0

def crashes (server : Server) (cmd cmd_arg1 cmd_arg2 : CString) : Bool :=
  (named cmd "gc" && (atoi cmd_arg1 ≥ server.svMaxclients || atoi cmd_arg2 ≥ gcOrdersCount)) ||
  (named cmd "npc" && named cmd_arg1 "spawn" && (named cmd_arg2 "ragnos" || named cmd_arg2 "saber_droid")) ||
  (named cmd "team" && (named cmd_arg1 "follow1" || named cmd_arg1 "follow2")) ||
  named cmd "callteamvote" ||
  (server.proxySvDisableKillCmd && named cmd "kill")

def voteRanges (server : Server) : List (String × Int × Int) :=
  [("capturelimit", 0, 0x7FFFFFFF), ("clientkick", 0, server.svMaxclients - 1), ("fraglimit", 0, 0x7FFFFFFF),
    ("g_doWarmup", 0, 1), ("map_restart", 0, server.proxySvMaxCallVoteMapRestartValue), ("timelimit", 0, 35790)]

def outOfRange (server : Server) (cmd_arg1 cmd_arg2 : CString) : Bool :=
  (voteRanges server).any fun vote => named cmd_arg1 vote.1 && (atoi cmd_arg2 < vote.2.1 || atoi cmd_arg2 > vote.2.2)

/-- The block of `callvote`: none, or what is sent with the refusal. -/
def refusedVote (server : Server) (clientNum : Int) (cmd_arg1 cmd_arg2 : CString) : Option (List Request) :=
  if cmd_arg2.length ≥ maxCvarValueString then some []
  else if named cmd_arg1 "kick" && (clientNumberFromName server.players cmd_arg2).isNone then
    some [.sendServerCommand clientNum ("print \"there is no client named '".toList ++ cmd_arg2 ++
      "' currently on the server.\n\"".toList)]
  else if outOfRange server cmd_arg1 cmd_arg2 then some []
  else none

def allowed (server : Server) (client : Client) (clientNum : Int) (tokens : List CString) (cmd : CString) :
    Bool × List Request :=
  if qStricmpn cmd "jkaDST_".toList 7 = 0 then
    (false, [.sendServerCommand (-1) ("chat \"^3(Anti-Cheat system) ^7".toList ++ client.cleanName ++
      "^3 got kicked cause of cheating^7\"".toList),
      .dropClient clientNum "(Anti-Cheat system) you got kicked cause of cheating".toList])
  else if client.muted && (sayCmd cmd || named cmd "voice_cmd") then
    (false, [.sendServerCommand clientNum "print \"You are muted.\n\"".toList])
  else
    let argsConcat := concatArgs tokens 1
    let cmd_arg1 := argv tokens 1 maxTokenChars
    let cmd_arg2 := argv tokens 2 maxTokenChars
    if cmd.length + 1 + argsConcat.length > maxCommandLength then (false, [])
    else if sayCmd cmd && argsConcat.length > 256 then (false, [])
    else if crashes server cmd cmd_arg1 cmd_arg2 then (false, [])
    else match if named cmd "callvote" then refusedVote server clientNum cmd_arg1 cmd_arg2 else none with
      | some sent => (false, sent)
      | none =>
        if (qStrchrs argsConcat "\r\n".toList).isSome then (false, [])
        else if !sayCmd cmd && (qStrchrs argsConcat ";".toList).isSome then (false, [])
        else (true, [])

/-- An allowed command has passed the checks of the joined arguments. -/
theorem of_allowed {server : Server} {client : Client} {clientNum : Int} {tokens : List CString} {cmd : CString}
    (accepted : (allowed server client clientNum tokens cmd).1 = true) :
    cmd.length + 1 + (concatArgs tokens 1).length ≤ maxCommandLength ∧
    (∀ c ∈ concatArgs tokens 1, c ≠ '\r' ∧ c ≠ '\n') ∧
    (sayCmd cmd = false → ';' ∉ concatArgs tokens 1) := by
  rw [allowed] at accepted
  split at accepted
  · cases accepted
  split at accepted
  · cases accepted
  simp only at accepted
  split at accepted
  · cases accepted
  rename_i short
  split at accepted
  · cases accepted
  split at accepted
  · cases accepted
  split at accepted
  · cases accepted
  split at accepted
  · cases accepted
  rename_i lines
  split at accepted
  · cases accepted
  rename_i commands
  refine ⟨by omega, ?_, ?_⟩
  · rw [Bool.not_eq_true, Option.isSome_eq_false_iff, Option.isNone_iff_eq_none, qStrchrs_eq_none_iff] at lines
    intro c member
    simpa using lines c member
  · intro other
    simp only [other, Bool.not_false, Bool.true_and, Bool.not_eq_true, Option.isSome_eq_false_iff,
      Option.isNone_iff_eq_none, qStrchrs_eq_none_iff] at commands
    intro member
    exact commands ';' member (by decide)

/-! ## What the game reads -/

/-- `gameArgv`: the arguments 1 and 2 that the game gets in place of the client's, unless they are empty. -/
structure GameArgv where
  arg1 : CString
  arg2 : CString

def GameArgv.none : GameArgv := ⟨[], []⟩

def gameArgvSize : Nat := 16

def replaceArguments (server : Server) (tokens : List CString) (cmd : CString) : GameArgv :=
  let arg1 := argv tokens 1 maxTokenChars
  if named cmd "vote" then
    ⟨qStrncpyz (if arg1.head? ∈ [some 'y', some 'Y', some '1'] then "yes".toList else "no".toList) gameArgvSize, []⟩
  else if named cmd "callvote" && named arg1 "kick" then
    match clientNumberFromName server.players (argv tokens 2 maxTokenChars) with
    | some target => ⟨qStrncpyz "clientkick".toList gameArgvSize, comSprintf gameArgvSize (decimal target)⟩
    | none => .none
  else .none

def GameArgv.entry (gameArgv : GameArgv) : Nat → CString
  | 1 => gameArgv.arg1
  | 2 => gameArgv.arg2
  | _ => []

/-- `G_ARGV` of the game: `GameArgv` first, then the engine. -/
def gameReads (gameArgv : GameArgv) (tokens : List CString) (n bufferLength : Nat) : CString :=
  if gameArgv.entry n = [] then argv tokens n bufferLength else qStrncpyz (gameArgv.entry n) bufferLength

theorem gameReads_zero (gameArgv : GameArgv) (tokens : List CString) (bufferLength : Nat) :
    gameReads gameArgv tokens 0 bufferLength = argv tokens 0 bufferLength := if_pos rfl

/-- The arguments that the proxy puts in are letters and digits. -/
theorem isAlphanum_entry (server : Server) (tokens : List CString) (cmd : CString) (n : Nat) {c : Char}
    (member : c ∈ (replaceArguments server tokens cmd).entry n) : c.isAlphanum = true := by
  have nothing (n : Nat) : GameArgv.none.entry n = [] := by
    rw [GameArgv.entry.eq_def]
    split <;> rfl
  simp only [replaceArguments] at member
  split at member
  · have letters : ∀ c ∈ qStrncpyz "yes".toList gameArgvSize ++ qStrncpyz "no".toList gameArgvSize,
        c.isAlphanum = true := by decide
    apply letters
    rw [GameArgv.entry.eq_def] at member
    split at member
    · simp only at member
      split at member
      · exact List.mem_append_left _ member
      · exact List.mem_append_right _ member
    · cases member
    · cases member
  · split at member
    · split at member
      · rename_i target _
        rw [GameArgv.entry.eq_def] at member
        split at member
        · have letters : ∀ c ∈ qStrncpyz "clientkick".toList gameArgvSize, c.isAlphanum = true := by decide
          exact letters c member
        · have digit := isDigit_of_mem_decimal (List.mem_of_mem_take member)
          rw [isDigit_eq] at digit
          simp [Char.isAlphanum, digit]
        · cases member
      · rw [nothing] at member
        cases member
    · rw [nothing] at member
      cases member

/-! ## Harmless command lines -/

/-- The checks are for this: the game reads no line break, no semicolon outside chat, and a short command line. -/
structure Harmless (server : Server) (tokens : List CString) : Prop where
  lines : ∀ n bufferLength, ∀ c ∈ gameReads (replaceArguments server tokens (argv tokens 0 maxTokenChars)) tokens n
    bufferLength, c ≠ '\r' ∧ c ≠ '\n'
  commands : sayCmd (argv tokens 0 maxTokenChars) = false → ∀ n bufferLength,
    ';' ∉ gameReads (replaceArguments server tokens (argv tokens 0 maxTokenChars)) tokens n bufferLength
  short : (cmdArgv tokens 0 ++ ' ' :: joined (tokens.drop 1)).length ≤ maxCommandLength

theorem not_mem_of_sayCmd {cmd : CString} (short : cmd.length < 99999) (say : sayCmd cmd = true) : ';' ∉ cmd := by
  intro member
  have upper : ';' ∈ cmd.map Char.toUpper := List.mem_map.mpr ⟨';', member, by decide⟩
  simp only [sayCmd, named, Bool.or_eq_true, decide_eq_true_eq, qStricmp_eq_zero_iff short] at say
  obtain (same | same) | same := say
  all_goals
    rw [EqNoCase] at same
    rw [same] at upper
    revert upper
    decide

theorem argv_zero {line : CString} (short : line.length < maxStringChars) :
    argv (cmdTokenizeString2 line false) 0 maxTokenChars = cmdArgv (cmdTokenizeString2 line false) 0 := by
  have room := cost_cmdTokenizeString2 line
  have sizes : maxStringChars = 1024 ∧ maxTokenChars = 1024 := ⟨rfl, rfl⟩
  refine qStrncpyz_of_fits ?_
  cases tokens : cmdTokenizeString2 line false with
  | nil => exact Nat.zero_lt_succ _
  | cons name args =>
    rw [tokens] at room
    simp only [cost, List.map_cons, List.sum_cons] at room
    simp only [cmdArgv, List.getD_cons_zero]
    omega

theorem mem_argv {tokens : List CString} {n bufferLength : Nat} {c : Char} (member : c ∈ argv tokens n bufferLength) :
    c ∈ cmdArgv tokens 0 ∨ c ∈ joined (tokens.drop 1) := by
  have token : c ∈ cmdArgv tokens n := List.mem_of_mem_take member
  cases tokens with
  | nil => simp [cmdArgv] at token
  | cons name args =>
    cases n with
    | zero => exact Or.inl token
    | succ n =>
      right
      rw [cmdArgv, List.getD_cons_succ, List.getD_eq_getElem?_getD] at token
      cases found : args[n]? with
      | none => simp [found] at token
      | some arg =>
        rw [found] at token
        exact mem_joined (List.mem_of_getElem? found) token

/-- What the game reads is put in by the proxy, or a character of the name, or one of the joined text. -/
theorem mem_gameReads {server : Server} {tokens : List CString} {cmd : CString} {n bufferLength : Nat} {c : Char}
    (member : c ∈ gameReads (replaceArguments server tokens cmd) tokens n bufferLength) :
    c.isAlphanum = true ∨ c ∈ cmdArgv tokens 0 ∨ c ∈ joined (tokens.drop 1) := by
  rw [gameReads] at member
  split at member
  · exact Or.inr (mem_argv member)
  · exact Or.inl (isAlphanum_entry server tokens cmd n (List.mem_of_mem_take member))

/-- An allowed command line of at most 1023 characters is harmless exactly when its name holds no line break and no
semicolon: the checks of characters look at the arguments only. -/
theorem allowed_harmless_iff {server : Server} {client : Client} {clientNum : Int} {line : CString}
    (short : line.length < maxStringChars)
    (accepted : (allowed server client clientNum (cmdTokenizeString2 line false)
      (argv (cmdTokenizeString2 line false) 0 maxTokenChars)).1 = true) :
    Harmless server (cmdTokenizeString2 line false) ↔
      ∀ c ∈ cmdArgv (cmdTokenizeString2 line false) 0, c ≠ '\r' ∧ c ≠ '\n' ∧ c ≠ ';' := by
  have name := argv_zero short
  obtain ⟨few, lines, commands⟩ := of_allowed accepted
  rw [concatArgs_eq short] at few lines commands
  rw [name] at few commands
  constructor
  · intro harmless c member
    obtain ⟨noReturn, noNewline⟩ := harmless.lines 0 maxTokenChars c (by rwa [gameReads_zero, name])
    refine ⟨noReturn, noNewline, ?_⟩
    rintro rfl
    cases chat : sayCmd (cmdArgv (cmdTokenizeString2 line false) 0) with
    | true =>
      have small : maxCommandLength = 512 := rfl
      exact not_mem_of_sayCmd (by omega) chat member
    | false =>
      rw [← name] at chat
      exact harmless.commands chat 0 maxTokenChars (by rwa [gameReads_zero, name])
  · intro clean
    refine ⟨?_, ?_, ?_⟩
    · intro n bufferLength c member
      obtain letter | first | later := mem_gameReads member
      · constructor <;> (rintro rfl; exact absurd letter (by decide))
      · exact ⟨(clean c first).1, (clean c first).2.1⟩
      · exact lines c later
    · intro other n bufferLength member
      rw [name] at other
      obtain letter | first | later := mem_gameReads member
      · exact absurd letter (by decide)
      · exact (clean ';' first).2.2 rfl
      · exact commands other later
    · rw [List.length_append, List.length_cons]
      omega

def eightSlots : Server := ⟨8, false, 60, fun _ => []⟩
def bob : Client := ⟨"Bob".toList, false⟩

theorem foo_bar_allowed :
    (allowed eightSlots bob 0 (cmdTokenizeString2 "foo;bar".toList false)
      (argv (cmdTokenizeString2 "foo;bar".toList false) 0 maxTokenChars)).1 = true ∧
    ¬ Harmless eightSlots (cmdTokenizeString2 "foo;bar".toList false) := by
  refine ⟨by decide +kernel, ?_⟩
  intro harmless
  refine harmless.commands (by decide +kernel) 0 maxTokenChars ?_
  decide +kernel

theorem callvote_harmless :
    Harmless eightSlots (cmdTokenizeString2 "callvote timelimit \"20\"".toList false) := by
  have accepted : (allowed eightSlots bob 0 (cmdTokenizeString2 "callvote timelimit \"20\"".toList false)
      (argv (cmdTokenizeString2 "callvote timelimit \"20\"".toList false) 0 maxTokenChars)).1 = true := by
    decide +kernel
  exact (allowed_harmless_iff (by decide) accepted).mpr (by decide +kernel)

end YbeProxy.ClientCommands
