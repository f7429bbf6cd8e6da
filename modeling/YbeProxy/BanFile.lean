import YbeProxy.BanPatterns
import Mathlib.Data.List.DropRight

/-!
# The ban file

How `Features/Bans.cpp` keeps its list over the reload of the module at each map change: the file that `UpdateIPBans`
writes, the words that `AddIPList` reads, and `BeforeGameInit`, which reads the file and takes over `g_banIPs`. Opening,
reading and writing the file succeed.
-/

namespace YbeProxy.BanFile
open YbeProxy.Strings YbeProxy.Addresses YbeProxy.Bans YbeProxy.Numerals YbeProxy.BanPatterns

structure Server where
  bans : BanList
  /-- `ybeproxy_bans.txt`, where there is one. -/
  file : Option CString
  gBanIPs : CString
  /-- The lines on the console so far. -/
  printed : List CString

def Server.print (server : Server) (line : CString) : Server := { server with printed := server.printed ++ [line] }

/-! ## Writing -/

def octetText (octet : Octet) : CString := if octet.mask ≠ 255 then "*".toList else decimal octet.compare.toNat

/-- The loop that fills `ip[32]`, with `last` behind the fourth octet. -/
def appendOctets (last : CString) : CString → List Octet → CString
  | ip, [] => ip
  | ip, octet :: rest =>
    appendOctets last (qStrcat (qStrcat ip 32 (octetText octet)) 32 (if rest = [] then last else ".".toList)) rest

def banText (last : CString) (filter : IpFilter) : CString := appendOctets last [] filter.octets

/-- The text of the file, one ban per line. -/
def bansText (bans : BanList) : CString :=
  (bans.ipFilters.filter fun filter => filter.used).flatMap (banText "\n".toList)

/-- `UpdateIPBans` -/
def updateIPBans (server : Server) : Server := { server with file := some (bansText server.bans) }

/-! ## Reading -/

/-- What `AddIP` prints. -/
def addIPLines (bans : BanList) (str : CString) (legacy : Bool) : List CString :=
  match stringToFilter str legacy with
  | .error line => [line]
  | .ok _ => if (addIP bans str legacy).1 then [] else ["IP filter list is full\n".toList]

def addIPTo (server : Server) (str : CString) (legacy : Bool) : Bool × Server :=
  ((addIP server.bans str legacy).1, { server with
    bans := (addIP server.bans str legacy).2
    printed := server.printed ++ addIPLines server.bans str legacy })

def separator (c : Char) : Bool := c ∈ " \t\r\n".toList

/-- The loop of `AddIPList`, with the part of a word that `word[64]` holds. -/
def addIPListFrom (legacy : Bool) : Server → CString → CString → Server
  | server, word, [] => if word = [] then server else (addIPTo server word legacy).2
  | server, word, c :: list =>
    if separator c then addIPListFrom legacy (if word = [] then server else (addIPTo server word legacy).2) [] list
    else addIPListFrom legacy server (if word.length < 63 then word ++ [c] else word) list

def addIPList (server : Server) (list : CString) (legacy : Bool) : Server := addIPListFrom legacy server [] list

/-- `MaxIpFilters * 20`, the size of `buffer`. -/
def bufferSize : Nat := 20480

/-- The text in `buffer`: a file that does not fit is cut behind its last separator there. -/
def readBuffer (text : CString) : CString :=
  if text.length < bufferSize then text else (text.take (bufferSize - 1)).rdropWhile fun c => !separator c

def maxCvarValueString : Nat := 256

def filterBanOff (filterBan : CString) : Bool :=
  qStrncpyz filterBan maxCvarValueString ≠ [] ∧ atoi (qStrncpyz filterBan maxCvarValueString) = 0

/-- The part of `BeforeGameInit` that reads the file. -/
def readBansFile (server : Server) : Server :=
  match server.file with
  | some text => if text.length > 0 then addIPList server (readBuffer text) false else server
  | none => server

/-- `BeforeGameInit`, with the value of `g_filterBan`. -/
def beforeGameInit (filterBan : CString) (server : Server) : Server :=
  let server := { server with bans := ⟨false, []⟩ }
  if filterBanOff filterBan then
    server.print "----- Proxy: g_filterBan is 0, the game keeps its own IP ban list\n".toList
  else
    let server := readBansFile server
    let list := qStrncpyz server.gBanIPs maxCvarValueString
    let server := if list = [] then server else updateIPBans { addIPList server list true with gBanIPs := [] }
    { server with bans := { server.bans with active := true } }

/-! ## The words of a list -/

def words (list : CString) : List CString := (list.splitOnP separator).filter fun word => word ≠ []

theorem words_of_word {word : CString} (whole : ∀ c ∈ word, separator c = false) :
    words word = if word = [] then [] else [word] := by
  rw [words, List.splitOnP_eq_singleton whole]
  by_cases empty : word = []
  · simp [empty]
  · simp [empty]

theorem words_append {word : CString} (whole : ∀ c ∈ word, separator c = false) {c : Char} (split : separator c = true)
    (list : CString) : words (word ++ c :: list) = (if word = [] then [] else [word]) ++ words list := by
  rw [words, List.splitOnP_append_cons_of_forall_mem whole c split]
  by_cases empty : word = []
  · simp [empty, words]
  · simp [empty, words]

def addWords (legacy : Bool) (bans : BanList) (list : List CString) : BanList :=
  list.foldl (fun bans word => (addIP bans word legacy).2) bans

/-- The loop adds the words of the list, each cut to what the buffer holds of it, and changes nothing else. -/
theorem addIPList_eq (server : Server) (list : CString) (legacy : Bool) :
    (addIPList server list legacy).bans = addWords legacy server.bans ((words list).map fun word => word.take 63) ∧
      (addIPList server list legacy).file = server.file ∧ (addIPList server list legacy).gBanIPs = server.gBanIPs := by
  have cut (word : CString) : word.take 63 = [] ↔ word = [] := by simp
  -- `word` is all of the current word: the buffer holds its first 63 characters.
  have loop (word : CString) (whole : ∀ c ∈ word, separator c = false) (server : Server) :
      (addIPListFrom legacy server (word.take 63) list).bans =
          addWords legacy server.bans ((words (word ++ list)).map fun word => word.take 63) ∧
        (addIPListFrom legacy server (word.take 63) list).file = server.file ∧
        (addIPListFrom legacy server (word.take 63) list).gBanIPs = server.gBanIPs := by
    induction list generalizing word server with
    | nil =>
      rw [addIPListFrom, List.append_nil, words_of_word whole]
      by_cases empty : word = []
      · rw [if_pos ((cut word).mpr empty), if_pos empty]
        exact ⟨rfl, rfl, rfl⟩
      · rw [if_neg (mt (cut word).mp empty), if_neg empty]
        exact ⟨rfl, rfl, rfl⟩
    | cons c list hypothesis =>
      rw [addIPListFrom]
      by_cases split : separator c = true
      · have next := hypothesis [] nofun
        simp only [List.take_nil, List.nil_append] at next
        rw [if_pos split, words_append whole split]
        by_cases empty : word = []
        · rw [if_pos ((cut word).mpr empty), if_pos empty]
          exact next server
        · rw [if_neg (mt (cut word).mp empty), if_neg empty]
          exact next (addIPTo server (word.take 63) legacy).2
      · have longer : (if (word.take 63).length < 63 then word.take 63 ++ [c] else word.take 63) = (word ++ [c]).take 63 := by
          rw [List.length_take]
          split
          · rename_i short
            rw [List.take_of_length_le (by omega), List.take_of_length_le (by simp; omega)]
          · rename_i long
            rw [List.take_append_of_le_length (by omega)]
        have more : ∀ d ∈ word ++ [c], separator d = false := by
          intro d member
          rcases List.mem_append.mp member with front | last
          · exact whole d front
          · rw [List.mem_singleton.mp last]
            simpa using split
        have joined : word ++ c :: list = word ++ [c] ++ list := List.append_cons ..
        rw [if_neg split, longer, joined]
        exact hypothesis (word ++ [c]) more server
  exact loop [] nofun server

/-! ## Reading back what was written -/

/-- Four octets with dots between them. -/
def dotted : List Octet → CString
  | [] => []
  | [octet] => octetText octet
  | octet :: rest => octetText octet ++ '.' :: dotted rest

theorem dotted_cons (octet other : Octet) (rest : List Octet) :
    dotted (octet :: other :: rest) = octetText octet ++ '.' :: dotted (other :: rest) := rfl

theorem length_octetText (octet : Octet) : 0 < (octetText octet).length ∧ (octetText octet).length ≤ 3 := by
  rw [octetText]
  split
  · decide
  · exact ⟨List.length_pos_iff.mpr (decimal_ne_nil _), length_decimal_le (by decide) (octet.compare.toNat_lt.trans (by decide))⟩

theorem length_dotted (octets : List Octet) : (dotted octets).length ≤ 4 * octets.length := by
  induction octets with
  | nil => exact Nat.le_refl 0
  | cons octet rest hypothesis =>
    have short := (length_octetText octet).2
    cases rest with
    | nil =>
      rw [dotted, List.length_singleton]
      omega
    | cons other rest =>
      rw [dotted_cons, List.length_append, List.length_cons]
      simp only [List.length_cons] at hypothesis ⊢
      omega

theorem appendOctets_eq {last : CString} (single : last.length ≤ 1) (octets : List Octet) (present : octets ≠ []) (ip : CString)
    (room : ip.length + 4 * octets.length < 32) : appendOctets last ip octets = ip ++ (dotted octets ++ last) := by
  induction octets generalizing ip with
  | nil => exact absurd rfl present
  | cons octet rest hypothesis =>
    have short := (length_octetText octet).2
    have first : qStrcat ip 32 (octetText octet) = ip ++ octetText octet := by
      rw [List.length_cons] at room
      exact qStrcat_of_fits (by omega)
    have second (tail : CString) (single : tail.length ≤ 1) :
        qStrcat (ip ++ octetText octet) 32 tail = ip ++ octetText octet ++ tail := by
      rw [List.length_cons] at room
      exact qStrcat_of_fits (by rw [List.length_append]; omega)
    rw [appendOctets, first]
    cases rest with
    | nil => rw [if_pos rfl, second last single, appendOctets, dotted, List.append_assoc]
    | cons other rest =>
      have dot : ".".toList = ['.'] := by decide
      rw [if_neg (List.cons_ne_nil other rest), second _ (by decide), hypothesis (List.cons_ne_nil other rest),
        dotted_cons, dot]
      · simp only [List.append_assoc, List.nil_append, List.cons_append]
      · simp only [List.length_append, List.length_cons, dot, List.length_nil] at room ⊢
        omega

theorem banText_eq {last : CString} (single : last.length ≤ 1) (filter : IpFilter) :
    banText last filter = dotted filter.octets ++ last := by
  have four := filter.four
  have present : filter.octets ≠ [] := by
    intro empty
    rw [empty] at four
    cases four
  exact appendOctets_eq single filter.octets present [] (by rw [four]; decide)

theorem le_numeral (word : CString) (sum : Nat) : sum ≤ word.foldl (fun sum c => sum * 10 + digitValue c) sum := by
  induction word generalizing sum with
  | nil => exact Nat.le_refl sum
  | cons c word hypothesis => exact Nat.le_trans (by omega) (hypothesis (sum * 10 + digitValue c))

/-- Digits are read up to the first other character while they are few and their value is a byte. -/
theorem readNumber_digits {word rest : CString} (digits : ∀ c ∈ word, isDigit c = true)
    (stop : ∀ c ∈ rest.head?, isDigit c = false) {read sum : Nat} (few : read + word.length ≤ 3)
    (small : word.foldl (fun sum c => sum * 10 + digitValue c) sum ≤ 255) :
    readNumber read sum (word ++ rest) = some (word.foldl (fun sum c => sum * 10 + digitValue c) sum, rest) := by
  induction word generalizing read sum with
  | nil =>
    cases rest with
    | nil => rfl
    | cons c rest => rw [List.nil_append, readNumber, if_neg (by simp [stop c rfl])]; rfl
  | cons c word hypothesis =>
    obtain ⟨digit, digits⟩ := List.forall_mem_cons.mp digits
    rw [List.length_cons] at few
    rw [List.foldl_cons] at small ⊢
    have next := le_numeral word (sum * 10 + digitValue c)
    have good : ¬ (read + 1 > 3 ∨ sum * 10 + digitValue c > 255) := by omega
    rw [List.cons_append, readNumber, if_pos digit]
    simp only [if_neg good]
    exact hypothesis digits (by omega) small

/-- A number that is read makes one octet, alone or with any other character behind it. -/
theorem readOctets_digits (legacy : Bool) (n : Nat) {word : CString} (present : word ≠ [])
    (digits : ∀ c ∈ word, isDigit c = true) (few : word.length ≤ 3) (small : numeral 10 digitValue word ≤ 255) :
    readOctets legacy (n + 1) word =
        some (numberOctet legacy (numeral 10 digitValue word) :: List.replicate n .wild) ∧
      ∀ c rest, isDigit c = false → readOctets legacy (n + 1) (word ++ c :: rest) =
        (readOctets legacy n rest).map (numberOctet legacy (numeral 10 digitValue word) :: ·) := by
  have read (rest : CString) (stop : ∀ c ∈ rest.head?, isDigit c = false) :
      readNumber 0 0 (word ++ rest) = some (numeral 10 digitValue word, rest) :=
    readNumber_digits digits stop (by omega) small
  obtain ⟨d, word, rfl⟩ := List.exists_cons_of_ne_nil present
  have digit : isDigit d = true := digits d List.mem_cons_self
  have other : d ≠ '*' := by
    rintro rfl
    revert digit
    decide
  constructor
  · have last := read [] (by simp)
    rw [List.append_nil] at last
    simp [readOctets, other, digit, last]
  · intro c rest stop
    have next := read (c :: rest) (by simpa using stop)
    rw [List.cons_append] at next ⊢
    simp [readOctets, other, digit, next]

theorem readOctets_decimal (legacy : Bool) (n : Nat) (byte : UInt8) :
    readOctets legacy (n + 1) (decimal byte.toNat) =
        some (numberOctet legacy byte.toNat :: List.replicate n .wild) ∧
      ∀ rest, readOctets legacy (n + 1) (decimal byte.toNat ++ '.' :: rest) =
        (readOctets legacy n rest).map (numberOctet legacy byte.toNat :: ·) := by
  have bound : byte.toNat < 256 := byte.toNat_lt
  have value : numeral 10 digitValue (decimal byte.toNat) = byte.toNat :=
    numeral_toDigits (by decide) (by decide) byte.toNat
  have length := length_decimal_le (k := 3) (by decide) (Nat.lt_trans bound (by decide))
  obtain ⟨last, next⟩ := readOctets_digits legacy n (decimal_ne_nil byte.toNat)
    (fun c member => isDigit_of_mem_decimal member) (by omega) (by omega)
  rw [value] at last next
  exact ⟨last, fun rest => next '.' rest (by decide)⟩

/-- Octets are read back as they were written. -/
theorem readOctets_dotted (octets : List Octet) (present : octets ≠ []) :
    readOctets false octets.length (dotted octets) = some octets := by
  have cases (octet : Octet) : octet = .wild ∨ octet = .exact octet.compare := by
    obtain ⟨value, mask, rfl | ⟨rfl, rfl⟩⟩ := octet
    · exact Or.inr rfl
    · exact Or.inl rfl
  have exact (value : UInt8) : numberOctet false value.toNat = .exact value := by simp [numberOctet]
  have star : octetText .wild = ['*'] := by decide
  have number (value : UInt8) : octetText (.exact value) = decimal value.toNat := rfl
  induction octets with
  | nil => exact absurd rfl present
  | cons octet rest hypothesis =>
    rcases cases octet with same | same
    · rw [same]
      cases rest with
      | nil =>
        rw [dotted, star]
        rfl
      | cons other rest =>
        rw [dotted_cons, star, List.singleton_append, List.length_cons, readOctets, if_pos rfl,
          hypothesis (List.cons_ne_nil other rest), Option.map_some]
    · rw [same]
      obtain ⟨last, next⟩ := readOctets_decimal false rest.length octet.compare
      cases rest with
      | nil =>
        rw [dotted, number, List.length_singleton]
        exact last.trans (by rw [exact]; rfl)
      | cons other rest =>
        rw [dotted_cons, number, List.length_cons, next, hypothesis (List.cons_ne_nil other rest), Option.map_some, exact]

/-! ## The words of the file -/

def used (bans : BanList) : List IpFilter := bans.ipFilters.filter fun filter => filter.used

theorem bansText_eq (bans : BanList) :
    bansText bans = (used bans).flatMap fun filter => dotted filter.octets ++ ['\n'] := by
  rw [bansText, used]
  congr 1
  funext filter
  exact banText_eq (by decide) filter

theorem plain_dotted (octets : List Octet) : ∀ c ∈ dotted octets, separator c = false := by
  have plain (octet : Octet) : ∀ c ∈ octetText octet, separator c = false := by
    intro c member
    rw [octetText] at member
    split at member
    · rw [List.mem_singleton.mp member]
      decide
    · have digit := isDigit_of_mem_decimal member
      have none : ∀ c ∈ " \t\r\n".toList, isDigit c = false := by decide
      apply decide_eq_false
      intro listed
      rw [none c listed] at digit
      cases digit
  induction octets with
  | nil => exact nofun
  | cons octet rest hypothesis =>
    cases rest with
    | nil => exact plain octet
    | cons other rest =>
      intro c member
      rw [dotted_cons, List.mem_append, List.mem_cons] at member
      rcases member with here | rfl | later
      · exact plain octet c here
      · decide
      · exact hypothesis c later

theorem dotted_ne_nil (filter : IpFilter) : dotted filter.octets ≠ [] := by
  obtain ⟨_, octets, four⟩ := filter
  obtain ⟨octet, rest, rfl⟩ := List.exists_cons_of_length_pos (by omega : 0 < octets.length)
  have text := (length_octetText octet).1
  cases rest with
  | nil => cases four
  | cons other rest => simp [dotted_cons]

theorem words_lines (filters : List IpFilter) :
    words (filters.flatMap fun filter => dotted filter.octets ++ ['\n']) = filters.map fun filter => dotted filter.octets := by
  induction filters with
  | nil => rfl
  | cons filter filters hypothesis =>
    rw [List.flatMap_cons, List.append_assoc, List.singleton_append, words_append (plain_dotted _) (by decide),
      if_neg (dotted_ne_nil filter), hypothesis]
    rfl

theorem reading_dotted (filter : IpFilter) :
    reading (dotted filter.octets) false = some (patternOf filter.octets filter.four) := by
  have read := readOctets_dotted filter.octets fun empty => dotted_ne_nil filter (by rw [empty]; rfl)
  rw [filter.four] at read
  rcases stringToFilter_cases (dotted filter.octets) false with ⟨unread, _, _⟩ | ⟨octets, four, found, _, spelled⟩
  · rw [read] at unread
    cases unread
  · rw [read, Option.some.injEq] at found
    subst found
    exact spelled

/-- No line is cut, in the file or in the buffer of a word, and the file fits its buffer. -/
theorem length_bansText {bans : BanList} (bounded : bans.ipFilters.length ≤ maxIpFilters) :
    (bansText bans).length < bufferSize ∧ ∀ word ∈ words (bansText bans), word.length ≤ 16 := by
  have short (filter : IpFilter) : (dotted filter.octets).length ≤ 16 := by
    have bound := length_dotted filter.octets
    rwa [filter.four] at bound
  have lines (filters : List IpFilter) :
      (filters.flatMap fun filter => dotted filter.octets ++ ['\n']).length ≤ 17 * filters.length := by
    induction filters with
    | nil => exact Nat.le_refl 0
    | cons filter filters hypothesis =>
      have line := short filter
      rw [List.flatMap_cons, List.length_append, List.length_append, List.length_singleton, List.length_cons]
      omega
  rw [bansText_eq, words_lines]
  constructor
  · have few : (used bans).length ≤ bans.ipFilters.length := List.length_filter_le ..
    have whole := lines (used bans)
    rw [maxIpFilters] at bounded
    rw [bufferSize]
    omega
  · intro word member
    obtain ⟨filter, _, rfl⟩ := List.mem_map.mp member
    exact short filter

/-! ## The list after a reload -/

theorem slots_addWords (legacy : Bool) (list : List CString) (bans : BanList) :
    slots (addWords legacy bans list) = (list.filterMap fun word => reading word legacy).foldl
      (fun slots pattern => (SlotStore.add maxIpFilters slots pattern).2) (slots bans) := by
  induction list generalizing bans with
  | nil => rfl
  | cons word list hypothesis =>
    rw [addWords, List.foldl_cons]
    cases spelled : reading word legacy with
    | none =>
      simp only [List.filterMap_cons, spelled]
      rw [addIP_of_unread spelled]
      exact hypothesis bans
    | some pattern =>
      simp only [List.filterMap_cons, spelled, List.foldl_cons]
      rw [← (addIP_of_read spelled bans).2.1]
      exact hypothesis _

theorem sound_addWords (legacy : Bool) (list : List CString) {bans : BanList} (sound : Sound bans) :
    Sound (addWords legacy bans list) := by
  induction list generalizing bans with
  | nil => exact sound
  | cons word list hypothesis => exact hypothesis (addIP_cases sound word legacy).1

theorem map_slot_used (filters : List IpFilter) :
    (filters.filter fun filter => filter.used).map slot = (filters.map slot).reduceOption.map some := by
  induction filters with
  | nil => rfl
  | cons filter filters hypothesis =>
    have known := slot_isSome filter
    cases holds : slot filter with
    | none =>
      rw [holds] at known
      rw [List.filter_cons_of_neg (by simp [← known]), List.map_cons, holds, List.reduceOption_cons_of_none, hypothesis]
    | some pattern =>
      rw [holds] at known
      rw [List.filter_cons_of_pos known.symm, List.map_cons, List.map_cons, holds, List.reduceOption_cons_of_some,
        List.map_cons, hypothesis]

theorem eq_of_slots {left right : List IpFilter} {values : List Pattern} (first : left.map slot = values.map some)
    (second : right.map slot = values.map some) : left = right := by
  induction values generalizing left right with
  | nil => rw [List.map_eq_nil_iff.mp first, List.map_eq_nil_iff.mp second]
  | cons value values hypothesis =>
    obtain ⟨a, left, rfl, here, rest⟩ := List.map_eq_cons_iff.mp first
    obtain ⟨b, right, rfl, here', rest'⟩ := List.map_eq_cons_iff.mp second
    rw [slot_injective here here', hypothesis rest rest']

/-- The file of a list reads back as its filters in use, in their order. -/
theorem addWords_bansText {bans : BanList} (sound : Sound bans) :
    (addWords false ⟨false, []⟩ ((words (bansText bans)).map fun word => word.take 63)).ipFilters = used bans := by
  have bounded : bans.ipFilters.length ≤ maxIpFilters := (List.length_map slot).symm.trans_le sound.bounded
  have whole : (words (bansText bans)).map (fun word => word.take 63) = words (bansText bans) := by
    refine (List.map_congr_left ?_).trans (List.map_id _)
    intro word member
    exact List.take_of_length_le (Nat.le_trans ((length_bansText bounded).2 word member) (by decide))
  have values : (words (bansText bans)).filterMap (fun word => reading word false) = (slots bans).reduceOption := by
    have spelled : ∀ filter ∈ used bans, reading (dotted filter.octets) false = slot filter := by
      intro filter member
      rw [reading_dotted, slot, if_pos (List.mem_filter.mp member).2]
    rw [bansText_eq, words_lines, List.filterMap_map]
    calc (used bans).filterMap (fun filter => reading (dotted filter.octets) false)
      _ = (used bans).filterMap slot := List.filterMap_congr spelled
      _ = ((used bans).map slot).reduceOption := by rw [List.reduceOption, List.filterMap_map, Function.id_comp]
      _ = ((slots bans).reduceOption.map some).reduceOption := by rw [used, map_slot_used, slots]
      _ = (slots bans).reduceOption := by rw [List.reduceOption, List.filterMap_map, Function.id_comp, List.filterMap_some]
  refine eq_of_slots ?_ (map_slot_used bans.ipFilters)
  have filled := slots_addWords false (words (bansText bans)) ⟨false, []⟩
  rw [values] at filled
  rw [whole]
  exact filled.trans (SlotStore.foldl_add_nil sound.apart ((List.reduceOption_length_le _).trans sound.bounded))

/-- The words of the file, as they are added. -/
def fileWords : Option CString → List CString
  | some text => (words (readBuffer text)).map fun word => word.take 63
  | none => []

/-- The words of `g_banIPs`, as they are added. -/
def importWords (gBanIPs : CString) : List CString :=
  (words (qStrncpyz gBanIPs maxCvarValueString)).map fun word => word.take 63

theorem readBansFile_eq (server : Server) :
    (readBansFile server).bans = addWords false server.bans (fileWords server.file) ∧
      (readBansFile server).file = server.file ∧ (readBansFile server).gBanIPs = server.gBanIPs := by
  rw [readBansFile]
  cases file : server.file with
  | none => exact ⟨rfl, file, rfl⟩
  | some text =>
    simp only
    split
    · obtain ⟨bans, same, list⟩ := addIPList_eq server (readBuffer text) false
      exact ⟨bans, same.trans file, list⟩
    · rename_i empty
      obtain rfl := List.length_eq_zero_iff.mp (Nat.eq_zero_of_not_pos empty)
      exact ⟨rfl, file, rfl⟩

/-- With `g_filterBan` on, the file is read and `g_banIPs` taken over, and then the file is written again. -/
theorem beforeGameInit_eq {filterBan : CString} (on : filterBanOff filterBan = false) (server : Server) :
    (beforeGameInit filterBan server).bans =
        { addWords true (addWords false ⟨false, []⟩ (fileWords server.file)) (importWords server.gBanIPs) with
          active := true } ∧
      ((server.gBanIPs = [] ∧ (beforeGameInit filterBan server).file = server.file) ∨
        (beforeGameInit filterBan server).file = some (bansText (beforeGameInit filterBan server).bans)) := by
  obtain ⟨bans, file, list⟩ := readBansFile_eq { server with bans := ⟨false, []⟩ }
  have cut : qStrncpyz server.gBanIPs maxCvarValueString = [] ↔ server.gBanIPs = [] := by
    simp [qStrncpyz, maxCvarValueString]
  rw [beforeGameInit]
  simp only [on, Bool.false_eq_true, if_false, list]
  by_cases empty : server.gBanIPs = []
  · rw [if_pos (cut.mpr empty)]
    refine ⟨?_, Or.inl ⟨empty, file⟩⟩
    rw [bans, importWords, cut.mpr empty]
    rfl
  · rw [if_neg (mt cut.mp empty)]
    obtain ⟨added, _, _⟩ := addIPList_eq (readBansFile { server with bans := ⟨false, []⟩ })
      (qStrncpyz server.gBanIPs maxCvarValueString) true
    refine ⟨?_, Or.inr rfl⟩
    simp only [updateIPBans]
    rw [added, bans, importWords]

/-- A file that was written is read whole. -/
theorem fileWords_bansText {bans : BanList} (sound : Sound bans) :
    fileWords (some (bansText bans)) = (words (bansText bans)).map fun word => word.take 63 := by
  have bounded : bans.ipFilters.length ≤ maxIpFilters := (List.length_map slot).symm.trans_le sound.bounded
  rw [fileWords, readBuffer, if_pos (length_bansText bounded).1]

/-- What `UpdateIPBans` wrote is read back by the next module. -/
theorem reload_updateIPBans {filterBan : CString} (on : filterBanOff filterBan = false) {server : Server}
    (sound : Sound server.bans) :
    (beforeGameInit filterBan (updateIPBans { server with gBanIPs := [] })).bans.ipFilters = used server.bans := by
  obtain ⟨bans, _⟩ := beforeGameInit_eq on (updateIPBans { server with gBanIPs := [] })
  have none : importWords [] = [] := by decide
  rw [bans, updateIPBans, none]
  simp only [fileWords_bansText sound]
  exact addWords_bansText sound

end YbeProxy.BanFile
