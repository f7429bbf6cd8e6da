import YbeProxy.Appending
import YbeProxy.CommandTexts
import YbeProxy.PrintToClient

/-!
# The table of proxyconfig

`PrintConfig` of `Features/Cvars.cpp`, with its tables of cvars: the lines go into one buffer, and from there to the console
or, with `PrintToClient`, to a client. The cvars are what `Cvar_VariableStringBuffer` reads.
-/

namespace YbeProxy.ConfigTable
open YbeProxy.Appending YbeProxy.Strings YbeProxy.CommandTexts YbeProxy.PrintToClient YbeProxy.TextChunks YbeProxy.WhileLoop
open YbeProxy.Cmd (cmdTokenizeString2 bigInfoString)

/-! ## The cvars -/

structure CvarTable where
  /-- Whether there is a `vmCvar`. -/
  held : Bool
  cvarName : CString
  defaultString : CString
  cvarFlags : Nat

def cvarArchive : Nat := 1
def cvarServerinfo : Nat := 4
def cvarRom : Nat := 64

def proxyOriginalEngineCVarTable : List CvarTable :=
  [⟨true, "proxy_sv_pingFix".toList, "0".toList, cvarArchive⟩,
    ⟨true, "proxy_sv_enableNetStatus".toList, "0".toList, cvarArchive⟩,
    ⟨true, "sv_maxRate".toList, "0".toList, cvarArchive + cvarServerinfo⟩,
    ⟨true, "sv_minRate".toList, "0".toList, cvarArchive + cvarServerinfo⟩,
    ⟨true, "sv_minSnaps".toList, "0".toList, cvarArchive⟩, ⟨true, "sv_maxSnaps".toList, "0".toList, cvarArchive⟩]

def proxyCVarTable : List CvarTable :=
  [⟨true, "proxy_sv_maxCallVoteMapRestartValue".toList, "60".toList, cvarArchive⟩,
    ⟨true, "proxy_sv_modelPathLength".toList, "64".toList, cvarArchive⟩,
    ⟨true, "proxy_sv_disableKillCmd".toList, "0".toList, cvarArchive⟩,
    ⟨true, "proxy_sv_maxClientsPerIP".toList, "3".toList, cvarArchive⟩,
    ⟨true, "proxy_sv_disableWelcomeMessage".toList, "0".toList, cvarArchive⟩,
    ⟨true, "proxy_sv_disableServerInfoVersion".toList, "0".toList, cvarArchive⟩,
    ⟨true, "proxy_sv_allowSamePlayerNames".toList, "0".toList, cvarArchive⟩,
    ⟨false, "YbeProxy".toList, [], cvarServerinfo + cvarRom⟩, ⟨true, "sv_fps".toList, "20".toList, 0⟩,
    ⟨true, "g_gametype".toList, "0".toList, 0⟩]

def serverSettings : List CString :=
  ["sv_hostname", "sv_maxclients", "sv_privateClients", "sv_fps", "sv_maxRate", "sv_pure", "fraglimit", "timelimit"].map
    String.toList

/-! ## The lines -/

def maxStringChars : Nat := 1024
def maxCvarValueString : Nat := 256

/-- `%-36s`, for a width of 36. -/
def leftColumn (width : Nat) (text : CString) : CString := text ++ List.replicate (width - text.length) ' '

/-- The value of a cvar, in a buffer. -/
def cvarValue (cvars : CString → CString) (name : CString) : CString := qStrncpyz (cvars name) maxCvarValueString

/-- The lines of `PrintTable`. -/
def tableLines (cvars : CString → CString) (table : List CvarTable) : List CString :=
  (table.filter fun item => item.held && item.cvarFlags ≠ 0).map fun item =>
    leftColumn 36 item.cvarName ++ [' '] ++ leftColumn 10 (cvarValue cvars item.cvarName) ++ [' '] ++ item.defaultString ++ ['\n']

def settingLines (cvars : CString → CString) (isOriginalEngine : Bool) : List CString :=
  (serverSettings.filter fun name => !(isOriginalEngine && name = "sv_maxRate".toList)).map fun name =>
    leftColumn 36 name ++ [' '] ++ cvarValue cvars name ++ ['\n']

def engineKind (isOriginalEngine : Bool) : CString :=
  if isOriginalEngine then "original engine, engine fixes on".toList else "not the original engine, no engine fixes".toList

/-- The texts that `PrintConfig` appends, one after the other. -/
def configLines (cvars : CString → CString) (isOriginalEngine : Bool) : List CString :=
  ["YbeProxy 1.0.0\n".toList,
    "Engine: ".toList ++ qStrncpyz (cvars "version".toList) maxStringChars ++ " (".toList ++ engineKind isOriginalEngine ++
      ")\n".toList,
    leftColumn 36 "cvar".toList ++ [' '] ++ leftColumn 10 "value".toList ++ " default\n".toList,
    "------------------------------------ ---------- -------\n".toList] ++
  (if isOriginalEngine then tableLines cvars proxyOriginalEngineCVarTable else []) ++ tableLines cvars proxyCVarTable ++
  ['\n' :: leftColumn 36 "server setting".toList ++ " value\n".toList,
    "------------------------------------ ----------\n".toList] ++ settingLines cvars isOriginalEngine

/-- `sizeof(text)`. -/
def textSize : Nat := 4096

def configText (cvars : CString → CString) (isOriginalEngine : Bool) : CString :=
  appendAll textSize [] (configLines cvars isOriginalEngine)

inductive Output
  | console (text : CString)
  | client (commands : List (Int32 × CString))

def printConfig (cvars : CString → CString) (isOriginalEngine : Bool) (clientNum : Int32) (fuel : ℕ) : Option Output :=
  if clientNum < 0 then some (.console (configText cvars isOriginalEngine))
  else (printToClient clientNum fuel (configText cvars isOriginalEngine)).map .client

/-- The server commands of an output. -/
def Output.commands : Output → List CString
  | .console _ => []
  | .client commands => commands.map Prod.snd

/-! ## What is read -/

theorem printConfig_cases (cvars : CString → CString) (isOriginalEngine : Bool) (clientNum : Int32) :
    (clientNum < 0 ∧ Ends (printConfig cvars isOriginalEngine clientNum) (.console (configText cvars isOriginalEngine))) ∨
      ∃ chunks, Chunking '\n' 999 (configText cvars isOriginalEngine) chunks ∧
        Ends (printConfig cvars isOriginalEngine clientNum) (.client (chunks.map (sent clientNum))) := by
  by_cases toConsole : clientNum < 0
  · have run : printConfig cvars isOriginalEngine clientNum = fun _ => some (.console (configText cvars isOriginalEngine)) := by
      funext fuel
      rw [printConfig, if_pos toConsole]
    rw [run]
    exact .inl ⟨toConsole, .pure _⟩
  · obtain ⟨chunks, chunking, ends⟩ := printToClient_chunking clientNum (configText cvars isOriginalEngine)
    have run : printConfig cvars isOriginalEngine clientNum = fun fuel =>
        (printToClient clientNum fuel (configText cvars isOriginalEngine)).map .client := by
      funext fuel
      rw [printConfig, if_neg toConsole]
    rw [run]
    exact .inr ⟨chunks, chunking, ends.map Output.client⟩

/-- The engine takes every server command of the table, and a client reads it as a print of one text. -/
theorem printConfig_sound (cvars : CString → CString) (isOriginalEngine : Bool) (clientNum : Int32) :
    ∃ output, Ends (printConfig cvars isOriginalEngine clientNum) output ∧ ∀ command ∈ output.commands, Sound command := by
  rcases printConfig_cases cvars isOriginalEngine clientNum with ⟨_, ends⟩ | ⟨chunks, chunking, ends⟩
  · exact ⟨_, ends, List.forall_mem_nil _⟩
  · refine ⟨_, ends, fun command member => ?_⟩
    rw [Output.commands, List.map_map] at member
    obtain ⟨chunk, listed, rfl⟩ := List.mem_map.mp member
    have short := (chunking.sizes chunk listed).2
    exact sound_of_print (by rw [List.length_map]; omega) (unquoted_singleQuote chunk)

theorem tokens_of_print {piece : CString} (short : piece.length ≤ 999) (unquoted : Unquoted piece) :
    cmdTokenizeString2 ("print \"".toList ++ piece ++ ['"']) false = ["print".toList, piece] := by
  have front : "print \"".toList = "print".toList ++ [' ', '"'] := by decide
  have size : "print".toList.length = 5 ∧ bigInfoString = 8192 := by decide
  have shape : "print \"".toList ++ piece ++ ['"'] = "print".toList ++ ' ' :: '"' :: (piece ++ ['"']) := by
    rw [front]
    simp only [List.append_assoc, List.cons_append, List.nil_append]
  rw [shape]
  refine tokens_of_quoted verb_print unquoted ?_
  simp only [List.length_append, List.length_cons, List.length_nil]
  omega

/-- The reader gets whole lines of the table, in order, its double quotes made single for a client, and all of them exactly
when the table fits in the buffer. -/
theorem config_is_told (cvars : CString → CString) (isOriginalEngine : Bool) (clientNum : Int32) :
    ∃ told : List CString, told.Sublist (configLines cvars isOriginalEngine) ∧
      (told = configLines cvars isOriginalEngine ↔ (configLines cvars isOriginalEngine).flatten.length < 4096) ∧
      ((clientNum < 0 ∧ Ends (printConfig cvars isOriginalEngine clientNum) (.console told.flatten)) ∨
        ∃ commands prints : List CString,
          Ends (printConfig cvars isOriginalEngine clientNum) (.client (commands.map (clientNum, ·))) ∧
          commands.map (cmdTokenizeString2 · false) = prints.map (["print".toList, ·]) ∧
          prints.flatten = told.flatten.map singleQuote) := by
  have told : configText cvars isOriginalEngine = (fitting textSize 0 (configLines cvars isOriginalEngine)).flatten := by
    rw [configText, appendAll_eq]
    rfl
  have all := @fitting_eq_self_iff textSize 0 (by decide) (configLines cvars isOriginalEngine)
  rw [Nat.zero_add] at all
  refine ⟨fitting textSize 0 (configLines cvars isOriginalEngine), fitting_sublist _ _, all, ?_⟩
  rcases printConfig_cases cvars isOriginalEngine clientNum with ⟨toConsole, ends⟩ | ⟨chunks, chunking, ends⟩
  · exact .inl ⟨toConsole, told ▸ ends⟩
  · refine .inr ⟨chunks.map fun chunk => "print \"".toList ++ chunk.map singleQuote ++ ['"'],
      chunks.map (List.map singleQuote), ?_, ?_, ?_⟩
    · rw [List.map_map]
      exact ends
    · rw [List.map_map, List.map_map]
      refine List.map_congr_left fun chunk member => ?_
      have short := (chunking.sizes chunk member).2
      exact tokens_of_print (by rwa [List.length_map]) (unquoted_singleQuote chunk)
    · rw [← List.map_flatten, chunking.flatten_eq, told]

end YbeProxy.ConfigTable
