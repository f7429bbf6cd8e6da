import YbeProxy.Addresses
import Mathlib.Data.List.Forall2

/-!
# IP bans

The ban list of `Features/Bans.cpp`: how a filter is read, added and removed, and the test of an address against the
list. A filter is a pattern of four octets, each one value or a wildcard.
-/

namespace YbeProxy.Bans
open YbeProxy.Strings YbeProxy.Addresses

/-! ## Patterns -/

/-- One octet of a filter: `compare` and `mask`. Every octet compares a whole byte or none of it. -/
structure Octet where
  compare : UInt8
  mask : UInt8
  sound : mask = 255 ∨ mask = 0 ∧ compare = 0
  deriving DecidableEq

def Octet.exact (value : UInt8) : Octet := ⟨value, 255, Or.inl rfl⟩
def Octet.wild : Octet := ⟨0, 0, Or.inr ⟨rfl, rfl⟩⟩

def Octet.Admits (octet : Octet) (byte : UInt8) : Prop := octet.mask = 0 ∨ octet.compare = byte

structure IpFilter where
  used : Bool
  octets : List Octet
  four : octets.length = 4
  deriving DecidableEq

def octetsOf (ip : Ipv4) : List UInt8 := [ip.a, ip.b, ip.c, ip.d]

/-- The address belongs to the pattern of a filter in use. -/
def Matches (filter : IpFilter) (ip : Ipv4) : Prop :=
  filter.used = true ∧ List.Forall₂ Octet.Admits filter.octets (octetsOf ip)

def Octet.test (octet : Octet) (byte : UInt8) : Bool := byte &&& octet.mask == octet.compare

theorem Octet.test_iff (octet : Octet) (byte : UInt8) : octet.test byte = true ↔ octet.Admits byte := by
  obtain ⟨value, mask, rfl | ⟨rfl, rfl⟩⟩ := octet
  · have whole : byte &&& 255 = byte := by
      rw [← UInt8.toNat_inj, UInt8.toNat_and]
      exact (Nat.and_two_pow_sub_one_eq_mod byte.toNat 8).trans (Nat.mod_eq_of_lt byte.toNat_lt)
    simp only [Octet.test, Octet.Admits, whole, beq_iff_eq]
    constructor
    · intro same
      exact Or.inr same.symm
    · rintro (zero | same)
      · exact absurd zero (by decide)
      · exact same.symm
  · have none : byte &&& 0 = 0 := UInt8.and_zero
    simp only [Octet.test, Octet.Admits, none, BEq.rfl, true_or]

/-! ## Reading a filter -/

/-- At most three digits with a value of at most 255, and the text behind them. -/
def readNumber : Nat → Nat → CString → Option (Nat × CString)
  | _, value, [] => some (value, [])
  | digits, value, c :: s =>
    if isDigit c then
      let value := value * 10 + digitValue c
      if digits + 1 > 3 ∨ value > 255 then none else readNumber (digits + 1) value s
    else some (value, c :: s)

/-- The octet of a number; with the rules of the retail game a 0 is a wildcard. -/
def numberOctet (legacy : Bool) (value : Nat) : Octet :=
  if legacy && value = 0 then .wild else .exact (.ofNat value)

/-- So many octets. Those that are not written are wildcards, and what follows the last is not read. -/
def readOctets (legacy : Bool) : Nat → CString → Option (List Octet)
  | 0, _ => some []
  | n + 1, '*' :: [] => some (List.replicate (n + 1) .wild)
  | n + 1, '*' :: c :: s => if c = '.' then (readOctets legacy n s).map (.wild :: ·) else none
  | _ + 1, [] => none
  | n + 1, c :: s =>
    if isDigit c then
      match readNumber 0 0 (c :: s) with
      | none => none
      | some (value, []) => some (numberOctet legacy value :: List.replicate n .wild)
      -- Any character stands between two numbers.
      | some (value, _ :: rest) => (readOctets legacy n rest).map (numberOctet legacy value :: ·)
    else none

theorem length_readOctets {legacy : Bool} {n : Nat} {s : CString} {octets : List Octet}
    (read : readOctets legacy n s = some octets) : octets.length = n := by
  induction n, s using readOctets.induct generalizing octets with
  | case1 s => simp_all [readOctets]
  | case2 n =>
    rw [readOctets, Option.some.injEq] at read
    rw [← read, List.length_replicate]
  | case3 n s hypothesis =>
    simp only [readOctets, if_true, Option.map_eq_some_iff] at read
    obtain ⟨rest, tail, rfl⟩ := read
    rw [List.length_cons, hypothesis tail]
  | case4 n c s other => simp_all [readOctets]
  | case5 n => simp_all [readOctets]
  | case6 n c s one more digit failed => simp_all [readOctets]
  | case7 n c s one more digit value number =>
    simp only [readOctets, digit, if_true, number, Option.some.injEq] at read
    rw [← read, List.length_cons, List.length_replicate]
  | case8 n c s one more digit value d rest number hypothesis =>
    simp only [readOctets, digit, if_true, number, Option.map_eq_some_iff] at read
    obtain ⟨tail, found, rfl⟩ := read
    rw [List.length_cons, hypothesis found]
  | case9 n c s one more plain => simp_all [readOctets]

/-- `StringToFilter`: the filter, or the line that is printed. -/
def stringToFilter (s : CString) (legacy : Bool) : Except CString IpFilter :=
  match read : readOctets legacy 4 s with
  | some octets => .ok ⟨true, octets, length_readOctets read⟩
  | none => .error ("Bad filter address: ".toList ++ s ++ "\n".toList)

/-! ## The list -/

def maxIpFilters : Nat := 1024

/-- `active` and the used part of `ipFilters`. -/
structure BanList where
  active : Bool
  ipFilters : List IpFilter

def sameFilter (a b : IpFilter) : Bool := a.used && b.used && a.octets == b.octets

/-- `AddIP`: false when the address is not valid or the list is full. -/
def addIP (bans : BanList) (str : CString) (legacy : Bool) : Bool × BanList :=
  match stringToFilter str legacy with
  | .error _ => (false, bans)
  | .ok filter =>
    if bans.ipFilters.any (sameFilter · filter) then (true, bans)
    else match bans.ipFilters.findIdx? (fun other => !other.used) with
      | some freeSlot => (true, { bans with ipFilters := bans.ipFilters.set freeSlot filter })
      | none =>
        if bans.ipFilters.length = maxIpFilters then (false, bans)
        else (true, { bans with ipFilters := bans.ipFilters ++ [filter] })

/-- `RemoveIP`: the first filter that the text spells, with the rules of today or of the retail game, is freed. -/
def removeIP (bans : BanList) (str : CString) : BanList :=
  match stringToFilter str false with
  | .error _ => bans
  | .ok filter =>
    let spelled (other : IpFilter) : Bool := sameFilter other filter ||
      match stringToFilter str true with
      | .ok legacyFilter => sameFilter other legacyFilter
      | .error _ => false
    match bans.ipFilters.findIdx? spelled with
    | some i => { bans with ipFilters := bans.ipFilters.modify i fun other => { other with used := false } }
    | none => bans

/-! ## The test of an address -/

/-- The numbers of the text, in bytes that wrap, up to a colon; those that are missing are 0. -/
def readParts : Nat → UInt8 → CString → List UInt8
  | 0, _, _ => []
  | n + 1, part, [] => part :: List.replicate n 0
  | n + 1, part, c :: s =>
    if isDigit c then readParts (n + 1) (part * 10 + .ofNat (digitValue c)) s
    else if c = ':' then part :: List.replicate n 0
    else part :: readParts n 0 s

def isBanned (bans : BanList) (ip : CString) : Bool :=
  if !bans.active || !(ip.head?.any isDigit) then false
  else bans.ipFilters.any fun filter =>
    filter.used && (filter.octets.zip (readParts 4 0 ip)).all fun pair => pair.1.test pair.2

theorem readParts_decimal (n : Nat) (byte : UInt8) (s : CString) :
    readParts (n + 1) 0 (decimal byte.toNat ++ s) = readParts (n + 1) byte s := by
  have digits (word : CString) (digit : ∀ c ∈ word, isDigit c = true) (part : UInt8) (rest : CString) :
      readParts (n + 1) part (word ++ rest) =
        readParts (n + 1) (word.foldl (fun part c => part * 10 + .ofNat (digitValue c)) part) rest := by
    induction word generalizing part with
    | nil => rfl
    | cons c word hypothesis =>
      rw [List.cons_append, readParts, if_pos (digit c List.mem_cons_self),
        hypothesis fun d member => digit d (List.mem_cons_of_mem c member)]
      rfl
  have value : ∀ k : Fin 256,
      (decimal k).foldl (fun (part : UInt8) c => part * 10 + .ofNat (digitValue c)) 0 = .ofNat k := by
    decide +kernel
  rw [digits _ fun c member => isDigit_of_mem_decimal member]
  rw [value ⟨byte.toNat, byte.toNat_lt⟩, UInt8.ofNat_toNat]

/-- The four numbers of an address text are its bytes, whatever follows the colon. -/
theorem readParts_adr (ip : Ipv4) (rest : CString) : readParts 4 0 (dottedQuad ip ++ ':' :: rest) = octetsOf ip := by
  have dot (n : Nat) (byte : UInt8) (s : CString) : readParts (n + 1) byte ('.' :: s) = byte :: readParts n 0 s := by
    rw [readParts, if_neg (by decide), if_neg (by decide)]
  have colon (n : Nat) (byte : UInt8) (s : CString) :
      readParts (n + 1) byte (':' :: s) = byte :: List.replicate n 0 := by
    rw [readParts, if_neg (by decide), if_pos rfl]
  simp only [dottedQuad, List.append_assoc, List.cons_append]
  rw [readParts_decimal 3, dot, readParts_decimal 2, dot, readParts_decimal 1, dot, readParts_decimal 0, colon]
  rfl

theorem dottedQuad_injective {x y : Ipv4} (same : dottedQuad x = dottedQuad y) : x = y := by
  have bytes := (readParts_adr x []).symm.trans ((congrArg (fun text => readParts 4 0 (text ++ [':'])) same).trans
    (readParts_adr y []))
  obtain ⟨a, b, c, d⟩ := x
  obtain ⟨a', b', c', d'⟩ := y
  simpa [octetsOf] using bytes

/-- An address that matches a filter of an active list is banned, whatever text follows its colon. -/
theorem isBanned_of_matches {bans : BanList} (active : bans.active = true) {filter : IpFilter}
    (listed : filter ∈ bans.ipFilters) {ip : Ipv4} (hit : Matches filter ip) (rest : CString) :
    isBanned bans (dottedQuad ip ++ ':' :: rest) = true := by
  have digit : (dottedQuad ip ++ ':' :: rest).head?.any isDigit = true := by
    obtain ⟨c, word, first⟩ := List.exists_cons_of_ne_nil (decimal_ne_nil ip.a.toNat)
    have head : isDigit c = true := isDigit_of_mem_decimal (n := ip.a.toNat) (by rw [first]; exact List.mem_cons_self)
    simp [dottedQuad, first, head]
  rw [isBanned, active, digit, readParts_adr]
  simp only [Bool.not_true, Bool.or_self, Bool.false_eq_true, if_false, List.any_eq_true]
  refine ⟨filter, listed, ?_⟩
  rw [hit.1, Bool.true_and, List.all_eq_true]
  rintro ⟨octet, byte⟩ member
  rw [Octet.test_iff]
  exact (List.forall₂_iff_zip.mp hit.2).2 member

end YbeProxy.Bans
