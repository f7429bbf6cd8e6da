import YbeProxy.Strings
import Mathlib.Data.List.Flatten

/-!
# The redirected console

`Proxy_Com_Printf` of `Engine/Hooks/qcommon/files.cpp` and `Com_EndRedirect` of `Engine/Hooks/qcommon/common.cpp`: the
text that a remote command prints is collected in a buffer and flushed to its sender. The log file of the console is
left out.
-/

namespace YbeProxy.Redirect
open YbeProxy.Strings

def maxPrintMsg : Nat := 4096

/-- `rd_buffer` and `rd_buffersize` while a redirect is active. -/
structure Buffer where
  size : Nat
  text : CString
  fits : text.length < size

def Buffer.opened (size : Nat) (room : 0 < size) : Buffer := ⟨size, [], room⟩

def Buffer.emptied (buffer : Buffer) : Buffer := .opened buffer.size (Nat.zero_lt_of_lt buffer.fits)

def Buffer.append (buffer : Buffer) (msg : CString) : Buffer :=
  ⟨buffer.size, qStrcat buffer.text buffer.size msg, length_qStrcat_lt msg buffer.fits⟩

/-- The redirect, the texts given to `rd_flush` so far, and the texts echoed to the console. -/
structure Common where
  redirect : Option Buffer
  flushed : List CString
  echoed : List CString

/-- `Proxy_Com_Printf`, with the text its format gives. -/
def proxyComPrintf (common : Common) (formatted : CString) : Common :=
  let msg := comSprintf maxPrintMsg formatted
  match common.redirect with
  | some buffer =>
    if msg.length + buffer.text.length > buffer.size - 1 then
      { common with redirect := some (buffer.emptied.append msg), flushed := common.flushed ++ [buffer.text] }
    else { common with redirect := some (buffer.append msg) }
  | none => { common with echoed := common.echoed ++ [msg] }

/-- `Com_EndRedirect`; the flush function is set while a redirect is active. -/
def comEndRedirect (common : Common) : Common :=
  match common.redirect with
  | some buffer => { common with redirect := none, flushed := common.flushed ++ [buffer.text] }
  | none => common

def redirected (size : Nat) (room : 0 < size) (messages : List CString) : List CString :=
  (comEndRedirect (messages.foldl proxyComPrintf ⟨some (.opened size room), [], []⟩)).flushed

/-! ## What is kept -/

def Holds (size : Nat) (message : CString) : Prop := message.length ≤ size - 1

instance (size : Nat) : DecidablePred (Holds size) := fun _ => inferInstanceAs (Decidable (_ ≤ _))

/-- The state of a redirect that has been given these messages: flushed and held, it has those that fit. -/
def Keeps (size : Nat) (messages : List CString) (common : Common) : Prop :=
  ∃ buffer, common.redirect = some buffer ∧ buffer.size = size ∧
    common.flushed.flatten ++ buffer.text = (messages.filter (Holds size ·)).flatten ∧
    ∀ text ∈ common.flushed, text.length ≤ size - 1

theorem append_text {buffer : Buffer} {msg : CString} (held : msg.length + buffer.text.length ≤ buffer.size - 1) :
    (buffer.append msg).text = buffer.text ++ msg := by
  have room := buffer.fits
  exact qStrcat_of_fits (by omega)

theorem append_text_of_long {buffer : Buffer} {msg : CString} (long : ¬ Holds buffer.size msg) :
    (buffer.append msg).text = buffer.text := by
  rw [Holds] at long
  exact qStrcat_of_full (by omega)

/-- One message joins what is kept when a buffer can hold it, and is lost otherwise. -/
theorem keeps_printf {size : Nat} {messages : List CString} {common : Common} {message : CString}
    (keeps : Keeps size messages common) (short : message.length ≤ 4095) :
    Keeps size (messages ++ [message]) (proxyComPrintf common message) := by
  obtain ⟨buffer, active, rfl, kept, small⟩ := keeps
  have msg : comSprintf maxPrintMsg message = message := List.take_of_length_le short
  have held := buffer.fits
  rw [proxyComPrintf, active, msg]
  simp only
  by_cases full : message.length + buffer.text.length > buffer.size - 1
  · rw [if_pos full]
    refine ⟨_, rfl, rfl, ?_, ?_⟩
    · simp only [List.flatten_append, List.flatten_singleton, kept, List.filter_append]
      by_cases fits : Holds buffer.size message
      · have alone : message.length ≤ buffer.size - 1 := fits
        rw [append_text (by simpa [Buffer.emptied, Buffer.opened] using alone)]
        simp [Buffer.emptied, Buffer.opened, fits]
      · have long : ¬ Holds buffer.emptied.size message := fits
        rw [append_text_of_long long]
        simp [Buffer.emptied, Buffer.opened, fits]
    · refine List.forall_mem_append.mpr ⟨small, List.forall_mem_singleton.mpr ?_⟩
      omega
  · rw [if_neg full]
    have fits : Holds buffer.size message := by
      rw [Holds]
      omega
    refine ⟨_, rfl, rfl, ?_, small⟩
    rw [append_text (by omega), ← List.append_assoc, kept]
    simp [fits]

theorem keeps_messages {size : Nat} (before messages : List CString) {common : Common}
    (keeps : Keeps size before common) (short : ∀ message ∈ messages, message.length ≤ 4095) :
    Keeps size (before ++ messages) (messages.foldl proxyComPrintf common) := by
  induction messages generalizing before common with
  | nil => simpa using keeps
  | cons message rest hypothesis =>
    have one := keeps_printf keeps (short message List.mem_cons_self)
    have all := hypothesis (before ++ [message]) one (fun other member => short other (List.mem_cons_of_mem _ member))
    simpa using all

theorem redirected_flatten (size : Nat) (room : 0 < size) (messages : List CString)
    (short : ∀ message ∈ messages, message.length ≤ 4095) :
    (redirected size room messages).flatten = (messages.filter (Holds size ·)).flatten ∧
      ∀ text ∈ redirected size room messages, text.length ≤ size - 1 := by
  have opened : Keeps size [] ⟨some (.opened size room), [], []⟩ := ⟨_, rfl, rfl, rfl, by simp⟩
  obtain ⟨buffer, active, rfl, kept, small⟩ := keeps_messages [] messages opened short
  have ended := buffer.fits
  rw [redirected, comEndRedirect, active]
  constructor
  · rw [List.flatten_append, List.flatten_singleton, kept, List.nil_append]
  · refine List.forall_mem_append.mpr ⟨small, List.forall_mem_singleton.mpr ?_⟩
    omega

theorem filter_flatten_eq_iff (p : CString → Bool) (texts : List CString) :
    (texts.filter p).flatten = texts.flatten ↔ ∀ text ∈ texts, p text = true ∨ text = [] := by
  induction texts with
  | nil => simp
  | cons text rest hypothesis =>
    have shorter : (rest.filter p).flatten.length ≤ rest.flatten.length :=
      (List.Sublist.flatten List.filter_sublist).length_le
    rw [List.filter_cons, List.forall_mem_cons, ← hypothesis]
    cases kept : p text with
    | true => simp
    | false =>
      rw [if_neg Bool.false_ne_true, List.flatten_cons]
      constructor
      · intro same
        have lengths := congrArg List.length same
        rw [List.length_append] at lengths
        have empty : text = [] := List.length_eq_zero_iff.mp (by omega)
        rw [empty, List.nil_append] at same
        exact ⟨Or.inr empty, same⟩
      · rintro ⟨empty | empty, same⟩
        · cases empty
        · rw [empty, List.nil_append, same]

/-- A redirect loses nothing exactly when every message fits in one buffer; each piece it flushes always fits. -/
theorem redirect_lossless_iff (size : Nat) (room : 2 ≤ size) (messages : List CString)
    (short : ∀ message ∈ messages, message.length ≤ 4095) :
    ((redirected size (Nat.zero_lt_of_lt room) messages).flatten = messages.flatten ∧
        ∀ text ∈ redirected size (Nat.zero_lt_of_lt room) messages, text.length ≤ size - 1) ↔
      ∀ message ∈ messages, message.length ≤ size - 1 := by
  obtain ⟨kept, small⟩ := redirected_flatten size (Nat.zero_lt_of_lt room) messages short
  rw [kept, filter_flatten_eq_iff]
  constructor
  · rintro ⟨whole, _⟩ message member
    rcases whole message member with fits | rfl
    · exact of_decide_eq_true fits
    · exact Nat.zero_le _
  · intro fits
    exact ⟨fun message member => Or.inl (decide_eq_true (fits message member)), small⟩

/-- A message as long as the buffer is lost: here the buffer of `rcon`. -/
theorem redirect_loses :
    (redirected 1008 (by decide) [List.replicate 1008 'a']).flatten ≠ [List.replicate 1008 'a'].flatten := by
  decide +kernel

theorem redirect_lossless_status :
    (redirected 1008 (by decide) ["map: mp/ffa3\n".toList, "num score ping\n".toList]).flatten =
      ["map: mp/ffa3\n".toList, "num score ping\n".toList].flatten :=
  ((redirect_lossless_iff 1008 (by decide) ["map: mp/ffa3\n".toList, "num score ping\n".toList] (by decide)).mpr
    (by decide)).1

end YbeProxy.Redirect
