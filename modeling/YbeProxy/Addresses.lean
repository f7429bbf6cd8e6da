import YbeProxy.Infostrings

/-!
# Network addresses

`netadr_t` of `sdk/sys/sys_public.hpp`, and the text of an IPv4 address as the
engine prints it, with and without the port.
-/

namespace YbeProxy.Addresses
open YbeProxy.Strings YbeProxy.Infostrings

inductive Netadrtype
  | naBot | naBad | naLoopback | naBroadcast | naIp | naIpx | naBroadcastIpx
  deriving DecidableEq

structure Ipv4 where
  a : UInt8
  b : UInt8
  c : UInt8
  d : UInt8
  deriving DecidableEq

/-- `netadr_t`, without the IPX bytes. -/
structure Netadr where
  type : Netadrtype
  ip : Ipv4
  port : UInt16
  deriving DecidableEq

/-- The four bytes copied in a `uint32_t` (`memcpy` on a little-endian machine). -/
def Ipv4.key (ip : Ipv4) : UInt32 :=
  .ofNat (ip.a.toNat + 256 * ip.b.toNat + 65536 * ip.c.toNat + 16777216 * ip.d.toNat)

theorem Ipv4.key_injective {x y : Ipv4} (same : x.key = y.key) : x = y := by
  have bound (b : UInt8) : b.toNat < 256 := b.toNat_lt
  have := bound x.a; have := bound x.b; have := bound x.c; have := bound x.d
  have := bound y.a; have := bound y.b; have := bound y.c; have := bound y.d
  have values := congrArg UInt32.toNat same
  simp only [Ipv4.key, UInt32.toNat_ofNat'] at values
  rw [Nat.mod_eq_of_lt (by omega), Nat.mod_eq_of_lt (by omega)] at values
  cases x; cases y
  simp only [Ipv4.mk.injEq, ← UInt8.toNat_inj]
  dsimp only at *
  omega

def dottedQuad (ip : Ipv4) : CString :=
  decimal ip.a.toNat ++ '.' :: (decimal ip.b.toNat ++ '.' :: (decimal ip.c.toNat ++ '.' :: decimal ip.d.toNat))
/-- `a.b.c.d:port`, the text of an address of type `NA_IP`. -/
def adrString (ip : Ipv4) (port : UInt16) : CString := dottedQuad ip ++ ':' :: decimal port.toNat

/-! ## The characters of the text -/

theorem isDigit_eq (c : Char) : Strings.isDigit c = c.isDigit := by
  simp [Strings.isDigit, Char.isDigit, Char.le_def]

theorem isDigit_of_mem_decimal {n : Nat} {c : Char} (member : c ∈ decimal n) : Strings.isDigit c = true := by
  rw [isDigit_eq]
  exact Nat.isDigit_of_mem_toDigits (by decide) (by decide) member
theorem decimal_ne_nil (n : Nat) : decimal n ≠ [] := Nat.toDigits_ne_nil
theorem length_decimal_le {n k : Nat} (positive : 0 < k) (small : n < 10 ^ k) : (decimal n).length ≤ k :=
  (Nat.length_toDigits_le_iff (by decide) positive).mpr small

theorem mem_dottedQuad {ip : Ipv4} {c : Char} (member : c ∈ dottedQuad ip) : Strings.isDigit c = true ∨ c = '.' := by
  simp only [dottedQuad, List.mem_append, List.mem_cons] at member
  rcases member with h | h | h | h | h | h | h
  · exact .inl (isDigit_of_mem_decimal h)
  · exact .inr h
  · exact .inl (isDigit_of_mem_decimal h)
  · exact .inr h
  · exact .inl (isDigit_of_mem_decimal h)
  · exact .inr h
  · exact .inl (isDigit_of_mem_decimal h)
theorem mem_adrString {ip : Ipv4} {port : UInt16} {c : Char} (member : c ∈ adrString ip port) :
    Strings.isDigit c = true ∨ c = '.' ∨ c = ':' := by
  simp only [adrString, List.mem_append, List.mem_cons] at member
  rcases member with h | h | h
  · exact (mem_dottedQuad h).imp_right .inl
  · exact .inr (.inr h)
  · exact .inl (isDigit_of_mem_decimal h)

theorem colon_not_mem_decimal (n : Nat) : ':' ∉ decimal n := fun member =>
  absurd (isDigit_of_mem_decimal member) (by decide)
theorem plain_adrString (ip : Ipv4) (port : UInt16) : Plain (adrString ip port) := by
  intro c member
  have notDigit : ∀ b ∈ ['\\', ';', '"'], Strings.isDigit b = false ∧ b ≠ '.' ∧ b ≠ ':' := by decide
  have free : ∀ b ∈ ['\\', ';', '"'], c ≠ b := by
    rintro b listed rfl
    have := notDigit c listed
    rcases mem_adrString member with h | h | h <;> simp_all
  exact ⟨free _ (by simp), free _ (by simp), free _ (by simp)⟩
theorem dottedQuad_ne_nil (ip : Ipv4) : dottedQuad ip ≠ [] := by simp [dottedQuad]
theorem adrString_ne_nil (ip : Ipv4) (port : UInt16) : adrString ip port ≠ [] := by simp [adrString]
theorem length_dottedQuad_le (ip : Ipv4) : (dottedQuad ip).length ≤ 15 := by
  have octet (b : UInt8) : (decimal b.toNat).length ≤ 3 :=
    length_decimal_le (by decide) (b.toNat_lt.trans (by decide))
  have := octet ip.a; have := octet ip.b; have := octet ip.c; have := octet ip.d
  simp only [dottedQuad, List.length_append, List.length_cons]
  omega
theorem length_adrString_le (ip : Ipv4) (port : UInt16) : (adrString ip port).length ≤ 21 := by
  have quad := length_dottedQuad_le ip
  have := length_decimal_le (k := 5) (by decide) (port.toNat_lt.trans (by decide))
  simp only [adrString, List.length_append, List.length_cons]
  omega

end YbeProxy.Addresses
