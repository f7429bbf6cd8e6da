import YbeProxy.Appending
import YbeProxy.CommandTexts
import YbeProxy.SendTimes
import YbeProxy.SnapshotRate

/-!
# The table of netStatus

`NetStatus` of `Engine/NetStatusCommands.cpp`, once its limit lets it print: a row for every slot that is not free, cut into
server commands. `ExplainNetStatus` prints what the columns mean.
-/

namespace YbeProxy.NetStatusTable
open YbeProxy.Appending YbeProxy.Strings YbeProxy.Infostrings YbeProxy.Userinfo YbeProxy.CommandTexts YbeProxy.ModuleTexts
open YbeProxy.ClientMessage (ClientState)
open YbeProxy.SendTimes (applied)
open YbeProxy.SnapshotRate (NetRates)
open YbeProxy.Cmd (cmdTokenizeString2 tokensFrom bigInfoString)

/-- What the table reads of a client. -/
structure ClientStatus where
  state : ClientState
  isBot : Bool
  score : Int32
  ping : Int32
  netPing : Int32
  /-- None until it is known. -/
  timenudge : Option Int32
  userinfo : CString
  rate : Int32
  snapshotMsec : Int32
  /-- What `GetRates` gives. -/
  rates : NetRates
  name : CString
  fits : name.length < 32
  unquoted : Unquoted name

structure Settings where
  svFps : Int32
  svMaxRate : Int32

/-! ## A row -/

/-- `%5s`, for a width of 5. -/
def column (width : Nat) (text : CString) : CString := List.leftpad width ' ' text

/-- `%5i`, for a width of 5. -/
def number (width : Nat) (n : Int) : CString := column width (decimalInt n)

def stateText (cl : ClientStatus) : CString :=
  match cl.state with
  | .csConnected => "     CON".toList
  | .csZombie => "     ZMB".toList
  | _ =>
    if cl.isBot then "     BOT".toList
    else comSprintf 32 (number 8 (if cl.ping < 9999 then cl.ping else 9999 : Int32).toInt)

def snaps (svFps snapshotMsec : Int32) : Int32 :=
  let msec := if 0 < snapshotMsec then snapshotMsec else 1
  if svFps < 1000 / msec then svFps else 1000 / msec

def netPingText (cl : ClientStatus) : CString :=
  if cl.isBot then "BOT".toList else comSprintf 16 (decimalInt cl.netPing.toInt)

def timeNudgeText (cl : ClientStatus) : CString :=
  match cl.timenudge with
  | none => "-".toList
  | some timenudge => comSprintf 16 (decimalInt timenudge.toInt)

/-- The columns in front of the name. -/
def columns (settings : Settings) (i : Nat) (cl : ClientStatus) : List CString :=
  let rates := if cl.isBot then ⟨0, 0, 0, 0⟩ else cl.rates
  let userRate := atoi (infoValueForKey cl.userinfo "rate".toList)
  let userSnaps := atoi (infoValueForKey cl.userinfo "snaps".toList)
  [number 5 cl.score.toInt, stateText cl, column 7 (netPingText cl), number 8 userRate,
    number 6 (applied settings.svMaxRate.toInt cl.rate.toInt), number 8 rates.rate.toInt, number 4 rates.fps.toInt,
    number 7 rates.packets.toInt, column 9 (timeNudgeText cl), number 9 userSnaps,
    number 5 (snaps settings.svFps cl.snapshotMsec).toInt, number 9 rates.snaps.toInt, number 2 i]

def row (settings : Settings) (i : Nat) (cl : ClientStatus) : CString :=
  (columns settings i cl).flatMap (· ++ [' ']) ++ cl.name ++ ['^', '7', '\n']

/-! ## The text -/

def statusSize : Nat := 8192

def header : CString :=
  ("score gamePing netPing userRate   rate trueRate  fps packets timeNudge userSnaps snaps trueSnaps " ++
    "id name \n").toList

def underline : CString :=
  ("----- -------- ------- -------- ------ -------- ---- ------- --------- --------- ----- --------- " ++
    "-- ---------------\n").toList

/-- A turn of the loop over the slots, with the number of the slot. -/
def addRow (settings : Settings) (status : CString) (slot : ClientStatus × Nat) : CString :=
  if slot.1.state = .csFree then status else qStrcat status statusSize (row settings slot.2 slot.1)

def status (settings : Settings) (clients : List ClientStatus) : CString :=
  clients.zipIdx.foldl (addRow settings) (qStrcat (qStrcat [] statusSize header) statusSize underline)

/-! ## The server commands -/

def bufferSize : Nat := 1012

/-- The next piece of the text; the last one gets a line break, if it has room for it. -/
def buffer (status : CString) : CString :=
  let buffer := qStrncpyz status bufferSize
  if buffer.length < bufferSize then qStrcat buffer bufferSize ['\n'] else buffer

theorem buffer_cases (status : CString) :
    (buffer status = status ++ ['\n'] ∧ status.length < 1011) ∨ (buffer status = status.take 1011 ∧ 1011 ≤ status.length) := by
  have size : bufferSize = 1012 := rfl
  have cut : (qStrncpyz status bufferSize).length = min 1011 status.length := List.length_take
  rw [buffer, if_pos (by omega)]
  by_cases short : status.length < 1011
  · rw [qStrncpyz_of_fits (by omega), qStrcat_of_fits (by simpa [size] using Nat.succ_lt_succ short)]
    exact .inl ⟨rfl, short⟩
  · rw [qStrcat_of_full (by rw [List.length_singleton]; omega)]
    exact .inr ⟨rfl, Nat.le_of_not_lt short⟩

/-- The loop that sends the text, from a place in it on. -/
def pieces (status : CString) (currentProgress : Nat) : List CString :=
  if currentProgress < status.length then
    buffer (status.drop currentProgress) ::
      pieces status (currentProgress + (buffer (status.drop currentProgress)).length)
  else []
termination_by status.length - currentProgress
decreasing_by
  have behind := List.length_drop (i := currentProgress) (l := status)
  rcases buffer_cases (status.drop currentProgress) with ⟨last, _⟩ | ⟨full, long⟩
  · rw [last, List.length_append, List.length_singleton]
    omega
  · rw [full, List.length_take_of_le long]
    omega

def explain : CString := "print \"Run /explainNetStatus for the meaning of each column.\n\"".toList

def netStatus (settings : Settings) (clients : List ClientStatus) : List CString :=
  (pieces (status settings clients) 0).map ("print \"".toList ++ ·) ++ [explain]

theorem pieces_flatten (status : CString) (currentProgress : Nat) :
    (pieces status currentProgress).flatten =
      status.drop currentProgress ++ if (status.length - currentProgress) % 1011 = 0 then [] else ['\n'] := by
  induction currentProgress using pieces.induct status with
  | case1 progress more hypothesis =>
    have behind := List.length_drop (i := progress) (l := status)
    rw [pieces, if_pos more, List.flatten_cons, hypothesis]
    rcases buffer_cases (status.drop progress) with ⟨last, short⟩ | ⟨full, long⟩
    · have nothing : status.drop (progress + ((status.drop progress).length + 1)) = [] := List.drop_eq_nil_of_le (by omega)
      rw [last, List.length_append, List.length_singleton, nothing, if_pos (by omega), if_neg (by omega), List.append_nil,
        List.append_nil]
    · have again : (status.length - (progress + 1011)) % 1011 = (status.length - progress) % 1011 := by omega
      rw [full, List.length_take_of_le long, ← List.drop_drop, again, ← List.append_assoc, List.take_append_drop]
  | case2 progress done =>
    rw [pieces, if_neg done, List.drop_eq_nil_of_le (by omega), if_pos (by omega)]
    rfl

theorem pieces_sound {status : CString} {currentProgress : Nat} {piece : CString}
    (member : piece ∈ pieces status currentProgress) : piece.length ≤ 1011 ∧ piece ⊆ '\n' :: status := by
  induction currentProgress using pieces.induct status with
  | case1 progress more hypothesis =>
    rw [pieces, if_pos more] at member
    rcases List.mem_cons.mp member with rfl | later
    · rcases buffer_cases (status.drop progress) with ⟨last, short⟩ | ⟨full, _⟩
      · rw [last, List.length_append, List.length_singleton]
        refine ⟨by omega, fun c inside => ?_⟩
        rcases List.mem_append.mp inside with old | new
        · exact List.mem_cons_of_mem _ (List.mem_of_mem_drop old)
        · exact List.mem_cons.mpr (.inl (List.mem_singleton.mp new))
      · rw [full]
        exact ⟨List.length_take_le _ _, fun c inside =>
          List.mem_cons_of_mem _ (List.mem_of_mem_drop (List.mem_of_mem_take inside))⟩
    · exact hypothesis later
  | case2 progress done =>
    rw [pieces, if_neg done] at member
    cases member

/-! ## The whole table -/

/-- The rows of the slots that are not free. -/
def rows (settings : Settings) (slots : List (ClientStatus × Nat)) : List CString :=
  (slots.filter fun slot => slot.1.state ≠ .csFree).map fun slot => row settings slot.2 slot.1

def table (settings : Settings) (clients : List ClientStatus) : CString :=
  header ++ underline ++ (rows settings clients.zipIdx).flatten

/-- A text of a column: it is no longer than an `int`, and no quote is in it. -/
def Narrow (text : CString) : Prop := text.length ≤ 11 ∧ Unquoted text

instance : DecidablePred Narrow := fun _ => inferInstanceAs (Decidable (_ ∧ _))

theorem narrow_column {width : Nat} (small : width ≤ 11) {text : CString} (narrow : Narrow text) :
    Narrow (column width text) := by
  obtain ⟨short, unquoted⟩ := narrow
  constructor
  · rw [column, List.leftpad, List.length_append, List.length_replicate]
    omega
  · refine Unquoted.append (fun member => ?_) unquoted
    cases List.eq_of_mem_replicate member

theorem narrow_decimalInt {n : Int} (low : -2147483648 ≤ n) (high : n ≤ 2147483647) : Narrow (decimalInt n) := by
  have digits : (decimal n.natAbs).length ≤ 10 := Addresses.length_decimal_le (by decide) (by omega)
  refine ⟨?_, unquoted_decimalInt n⟩
  rw [decimalInt]
  split
  · rw [List.length_cons]
    omega
  · omega

theorem narrow_number {width : Nat} (small : width ≤ 11) {n : Int} (low : -2147483648 ≤ n) (high : n ≤ 2147483647) :
    Narrow (number width n) := narrow_column small (narrow_decimalInt low high)

theorem narrow_int {width : Nat} (small : width ≤ 11) (n : Int32) : Narrow (number width n.toInt) :=
  narrow_number small n.le_toInt (Int.le_of_lt_add_one n.toInt_lt)

theorem narrow_cut {text : CString} (narrow : Narrow text) (size : Nat) : Narrow (comSprintf size text) :=
  ⟨(List.length_take_le' _ _).trans narrow.1, narrow.2.of_subset (List.take_subset _ _)⟩

theorem narrow_atoi {width : Nat} (small : width ≤ 11) (s : CString) : Narrow (number width (atoi s)) := by
  apply narrow_number small
  · rw [atoi]
    split <;> omega
  · rw [atoi]
    split <;> omega

theorem narrow_applied (svMaxRate rate : Int32) : Narrow (number 6 (applied svMaxRate.toInt rate.toInt)) := by
  have cap := svMaxRate.toInt_lt
  have asked := And.intro rate.le_toInt rate.toInt_lt
  apply narrow_number (by decide)
  · rw [applied]
    split_ifs <;> omega
  · rw [applied]
    split_ifs <;> omega

theorem narrow_columns (settings : Settings) {i : Nat} (slot : i < maxClients) (cl : ClientStatus) :
    ∀ text ∈ columns settings i cl, Narrow text := by
  have literal : ∀ text ∈ ["     CON", "     ZMB", "     BOT", "BOT", "-"], Narrow text.toList := by decide
  have state : Narrow (stateText cl) := by
    rw [stateText]
    split
    · exact literal _ (by decide)
    · exact literal _ (by decide)
    · split
      · exact literal _ (by decide)
      · exact narrow_cut (narrow_int (by decide) _) 32
  have netPing : Narrow (netPingText cl) := by
    rw [netPingText]
    split
    · exact literal _ (by decide)
    · exact narrow_cut (narrow_decimalInt cl.netPing.le_toInt (Int.le_of_lt_add_one cl.netPing.toInt_lt)) 16
  have timeNudge : Narrow (timeNudgeText cl) := by
    rw [timeNudgeText]
    split
    · exact literal _ (by decide)
    · rename_i timenudge _
      exact narrow_cut (narrow_decimalInt timenudge.le_toInt (Int.le_of_lt_add_one timenudge.toInt_lt)) 16
  have clients : maxClients = 32 := rfl
  have id : Narrow (number 2 i) := narrow_number (by decide) (by omega) (by omega)
  simp only [columns, List.forall_mem_cons, List.not_mem_nil, false_implies, implies_true, and_true]
  exact ⟨narrow_int (by decide) _, state, narrow_column (by decide) netPing, narrow_atoi (by decide) _,
    narrow_applied _ _, narrow_int (by decide) _, narrow_int (by decide) _, narrow_int (by decide) _,
    narrow_column (by decide) timeNudge, narrow_atoi (by decide) _, narrow_int (by decide) _, narrow_int (by decide) _, id⟩

theorem length_row_le (settings : Settings) {i : Nat} (slot : i < maxClients) (cl : ClientStatus) :
    (row settings i cl).length ≤ 190 := by
  have spaced : ∀ text ∈ (columns settings i cl).map (· ++ [' ']), text.length ≤ 12 := by
    intro text member
    obtain ⟨narrow, listed, rfl⟩ := List.mem_map.mp member
    rw [List.length_append, List.length_singleton]
    exact Nat.succ_le_succ (narrow_columns settings slot cl narrow listed).1
  have all := length_flatten_le spaced
  have count : ((columns settings i cl).map (· ++ [' '])).length = 13 := rfl
  have name := cl.fits
  change (((columns settings i cl).map (· ++ [' '])).flatten ++ cl.name ++ ['^', '7', '\n']).length ≤ 190
  rw [List.length_append, List.length_append, List.length_cons, List.length_cons, List.length_singleton]
  omega

theorem unquoted_row (settings : Settings) {i : Nat} (slot : i < maxClients) (cl : ClientStatus) :
    Unquoted (row settings i cl) := by
  refine Unquoted.append (Unquoted.append (fun member => ?_) cl.unquoted) (by decide)
  obtain ⟨text, listed, inside⟩ := List.mem_flatMap.mp member
  exact (narrow_columns settings slot cl text listed).2.append (by decide) inside

theorem length_headers : header.length + underline.length ≤ 230 := by decide +kernel

theorem addRows_eq (settings : Settings) (slots : List (ClientStatus × Nat)) (status : CString) :
    slots.foldl (addRow settings) status = appendAll statusSize status (rows settings slots) := by
  induction slots generalizing status with
  | nil => rfl
  | cons slot rest hypothesis =>
    rw [List.foldl_cons, hypothesis, rows, rows]
    by_cases free : slot.1.state = .csFree
    · rw [addRow, if_pos free, List.filter_cons_of_neg (by simp [free])]
    · rw [addRow, if_neg free, List.filter_cons_of_pos (by simp [free])]
      rfl

section Slots

variable (settings : Settings) {slots : List (ClientStatus × Nat)} (numbered : ∀ slot ∈ slots, slot.2 < maxClients)

include numbered

theorem mem_rows {text : CString} (member : text ∈ rows settings slots) : text.length ≤ 190 ∧ Unquoted text := by
  obtain ⟨slot, listed, rfl⟩ := List.mem_map.mp member
  have inside := numbered slot (List.mem_of_mem_filter listed)
  exact ⟨length_row_le settings inside slot.1, unquoted_row settings inside slot.1⟩

theorem length_rows_le : (rows settings slots).flatten.length ≤ 190 * slots.length := by
  have few : (rows settings slots).length ≤ slots.length := by
    rw [rows, List.length_map]
    exact List.length_filter_le _ _
  exact (length_flatten_le fun text member => (mem_rows settings numbered member).1).trans (Nat.mul_le_mul_left 190 few)

theorem unquoted_rows : Unquoted (rows settings slots).flatten :=
  unquoted_flatten fun _ member => (mem_rows settings numbered member).2

end Slots

theorem numbered_zipIdx {clients : List ClientStatus} (few : clients.length ≤ maxClients) :
    ∀ slot ∈ clients.zipIdx, slot.2 < maxClients := by
  intro slot member
  have inside := (List.mem_zipIdx member).2.1
  omega

theorem status_eq (settings : Settings) {clients : List ClientStatus} (few : clients.length ≤ maxClients) :
    status settings clients = table settings clients := by
  have headers := length_headers
  have sizes : statusSize = 8192 ∧ maxClients = 32 := ⟨rfl, rfl⟩
  have first : qStrcat [] statusSize header = header := qStrcat_of_fits (by rw [List.length_nil]; omega)
  have second : qStrcat header statusSize underline = header ++ underline := qStrcat_of_fits (by omega)
  have all := length_rows_le settings (numbered_zipIdx few)
  rw [List.length_zipIdx] at all
  rw [status, first, second, addRows_eq, appendAll_of_fits, table]
  rw [List.length_append]
  omega

/-- A print whose quote is not closed ends with the text. -/
theorem tokens_of_open {piece : CString} (short : piece.length ≤ 1011) (unquoted : Unquoted piece) :
    cmdTokenizeString2 ("print \"".toList ++ piece) false = ["print".toList, piece] := by
  have front : "print \"".toList = "print".toList ++ [' ', '"'] := by decide
  have size : "print".toList.length = 5 ∧ bigInfoString = 8192 := by decide
  have fits : ("print".toList ++ ' ' :: '"' :: piece).length < bigInfoString := by
    rw [List.length_append, List.length_cons, List.length_cons]
    omega
  have room : Cmd.maxStringTokens = 1022 + 1 + 1 := rfl
  have inside : ∀ c ∈ piece, decide (c ≠ '"') = true := by
    intro c member
    refine decide_eq_true ?_
    rintro rfl
    exact unquoted member
  have start : Cmd.skipBlanks ('"' :: piece) = '"' :: piece := Cmd.skipBlanks_of_token rfl (by simp [Cmd.opensComment])
  have message : tokensFrom false (1022 + 1) ('"' :: piece) = [piece] := by
    rw [tokensFrom, start]
    simp only [Bool.not_false, Bool.true_and, decide_true, if_true]
    rw [List.takeWhile_eq_self_iff.mpr inside, List.dropWhile_eq_nil_iff.mpr inside, List.tail_nil, Cmd.tokensFrom_nil]
  rw [front, List.append_assoc, List.cons_append, List.cons_append, List.nil_append, cmdTokenizeString2,
    qStrncpyz_of_fits fits, room, verb_print.tokensFrom_append, message]

def hint : CString := "Run /explainNetStatus for the meaning of each column.\n".toList

theorem sound_pieces (settings : Settings) {clients : List ClientStatus} (few : clients.length ≤ maxClients) :
    ∀ piece ∈ pieces (table settings clients) 0, piece.length ≤ 1011 ∧ Unquoted piece := by
  have headers : Unquoted header ∧ Unquoted underline := by decide +kernel
  have unquoted : Unquoted ('\n' :: table settings clients) := by
    have rows := unquoted_rows settings (numbered_zipIdx few)
    exact List.not_mem_cons_of_ne_of_not_mem (by decide) ((headers.1.append headers.2).append rows)
  intro piece member
  obtain ⟨short, subset⟩ := pieces_sound member
  exact ⟨short, unquoted.of_subset subset⟩

theorem tokens_of_explain : cmdTokenizeString2 explain false = ["print".toList, hint] := by decide +kernel

/-- The engine takes every server command of the table, and a client reads it as a print of one text. -/
theorem netStatus_sound (settings : Settings) {clients : List ClientStatus} (few : clients.length ≤ maxClients) :
    ∀ command ∈ netStatus settings clients, Sound command := by
  rw [netStatus, status_eq settings few]
  intro command member
  have size : maxServerCommand = 1022 ∧ "print \"".toList.length = 7 ∧ explain.length ≤ 100 := by decide
  rcases List.mem_append.mp member with piece | last
  · obtain ⟨text, listed, rfl⟩ := List.mem_map.mp piece
    obtain ⟨short, free⟩ := sound_pieces settings few text listed
    refine ⟨?_, "print".toList, by decide, text, tokens_of_open short free⟩
    rw [List.length_append]
    omega
  · obtain rfl := List.mem_singleton.mp last
    exact ⟨by omega, "print".toList, by decide, hint, tokens_of_explain⟩

/-- A client reads prints that make the whole table, whatever the numbers in it, and no server command is too long. A table
that fills its last piece has no line break behind it. -/
theorem table_is_told (settings : Settings) (clients : List ClientStatus) (few : clients.length ≤ maxClients) :
    ∃ prints : List CString,
      (netStatus settings clients).map (cmdTokenizeString2 · false) = (prints ++ [hint]).map (["print".toList, ·]) ∧
      prints.flatten = table settings clients ++ (if (table settings clients).length % 1011 = 0 then [] else ['\n']) ∧
      ∀ command ∈ netStatus settings clients, command.length ≤ maxServerCommand := by
  refine ⟨pieces (table settings clients) 0, ?_, ?_, fun command member => (netStatus_sound settings few command member).fits⟩
  · rw [netStatus, status_eq settings few, List.map_append, List.map_append, List.map_map, List.map_singleton, tokens_of_explain,
      List.map_singleton]
    congr 1
    refine List.map_congr_left fun piece member => ?_
    obtain ⟨short, free⟩ := sound_pieces settings few piece member
    exact tokens_of_open short free
  · rw [pieces_flatten, List.drop_zero, Nat.sub_zero]

theorem short_padawan : "Padawan".toList.length < 32 := by decide
theorem unquoted_padawan : Unquoted "Padawan".toList := by decide

def padawan : ClientStatus :=
  ⟨.csActive, false, 3, 48, 42, none, "\\rate\\25000\\snaps\\40".toList, 25000, 25, ⟨62, 125, 40, 9000⟩, "Padawan".toList,
    short_padawan, unquoted_padawan⟩

theorem table_is_told_sample :
    ∃ prints : List CString,
      (netStatus ⟨40, 0⟩ [padawan]).map (cmdTokenizeString2 · false) = (prints ++ [hint]).map (["print".toList, ·]) ∧
      prints.flatten = table ⟨40, 0⟩ [padawan] ++ (if (table ⟨40, 0⟩ [padawan]).length % 1011 = 0 then [] else ['\n']) ∧
      ∀ command ∈ netStatus ⟨40, 0⟩ [padawan], command.length ≤ maxServerCommand :=
  table_is_told ⟨40, 0⟩ [padawan] (by decide)

example : row ⟨40, 0⟩ 1 padawan =
    "    3       48      42    25000  25000     9000  125      62         -        40    40        40  1 Padawan^7\n".toList := by
  decide +kernel

/-! ## The meaning of the columns -/

def explainNetStatusColumns : CString :=
  "Columns of /netStatus:\n".toList ++
    "score      Score\n".toList ++
    "gamePing   Ping of the scoreboard and status. It includes the wait before the client sends its next\n".toList ++
    "           packet, and the jitter. CON: connecting, ZMB: leaving, BOT: bot\n".toList ++
    "netPing    Ping of the network: the smallest round trip of the last 4 seconds, close to the ping of the OS\n".toList ++
    "userRate   The rate the client asked for (/rate)\n".toList ++
    "rate       The rate the server applies: userRate, raised to sv_minRate and capped by sv_maxRate\n".toList ++
    "trueRate   Bytes per second the server sent to the client in the last second\n".toList ++
    "fps        Commands received in the last second: the FPS of the client\n".toList ++
    "packets    Packets received in the last second\n".toList

def explainNetStatusMore : CString :=
  "timeNudge  Estimate of the cl_timenudge of the client. -: not measured yet, or fewer than about 10\n".toList ++
    "           snapshots per second\n".toList ++
    "userSnaps  The snaps the client asked for (/snaps)\n".toList ++
    "snaps      The snapshots per second the server applies: userSnaps between sv_minSnaps and sv_maxSnaps,\n".toList ++
    "           at most sv_fps\n".toList ++
    "trueSnaps  Snapshots per second the server sent to the client in the last second\n".toList ++
    "id         Client number\n".toList ++
    "name       Name\n".toList ++
    "packets is not cl_maxpackets: at 125 fps, cl_maxpackets 100 gives about 62 packets per second.\n".toList ++
    "trueSnaps below snaps with trueRate close to rate: the rate of the client is too low, raise /rate.\n".toList

def explainNetStatus : List CString :=
  [explainNetStatusColumns, explainNetStatusMore].map fun text => "print \"".toList ++ text ++ ['"']

theorem sound_explained : ∀ text ∈ [explainNetStatusColumns, explainNetStatusMore], text.length ≤ 1014 ∧ Unquoted text := by
  decide +kernel

theorem explainNetStatus_sound : ∀ command ∈ explainNetStatus, Sound command := by
  intro command member
  obtain ⟨text, listed, rfl⟩ := List.mem_map.mp member
  obtain ⟨short, unquoted⟩ := sound_explained text listed
  exact sound_of_print short unquoted

end YbeProxy.NetStatusTable
