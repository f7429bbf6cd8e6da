import YbeProxy.Addresses

/-!
# The userinfo of a client after a change

`Proxy_SV_UserinfoChanged` (`Engine/Hooks/server/sv_client.cpp`) puts the
address of the connection in the `ip` key of the userinfo, shortens a bad model
name and hands over to the engine, then `rate::Apply` (`Engine/Rate.cpp`) sets
the rate and the snapshots.
-/

namespace YbeProxy.UserinfoChanged
open YbeProxy.Strings YbeProxy.KeyValueText YbeProxy.Infostrings YbeProxy.Addresses

def keyIp : CString := "ip".toList
def keyModel : CString := "model".toList
def kyle : CString := "kyle".toList

structure Client where
  userinfo : Infostring
  remoteAddress : Netadr
  rate : Int
  snapshotMsec : Int
  deriving DecidableEq

structure Cvars where
  proxySvModelPathLength : Int
  svMinRate : Int
  svMinSnaps : Int
  svMaxSnaps : Int
  svFps : Int

structure Engine where
  netAdrToString : Netadr → CString
  originalSvUserinfoChanged : Client → Client

/-- The text that the function wants as the `ip` value. -/
def addressText (E : Engine) (a : Netadr) : CString :=
  if a.type = .naLoopback then "localhost".toList else E.netAdrToString a

/-- A userinfo that the function can leave: it starts with a backslash, or it has no room for the pair that would have
    put one in front. -/
def Leaves (ip userinfo : CString) : Prop :=
  Delimited '\\' userinfo ∨ maxInfoString ≤ keyIp.length + ip.length + 2 + userinfo.length

/-- What is relied on: `NET_AdrToString` returns a short text without the
    characters that an info string refuses, and the original function reads the
    name, the rate, the handicap and the snaps, so that the `ip` value stays. -/
structure Documented (E : Engine) : Prop where
  address_short : ∀ a, (E.netAdrToString a).length < 64
  address_plain : ∀ a, Plain (E.netAdrToString a)
  address_ne_nil : ∀ a, E.netAdrToString a ≠ []
  keeps_ip : ∀ cl, Leaves (addressText E cl.remoteAddress) cl.userinfo.text →
    infoValueForKey (E.originalSvUserinfoChanged cl).userinfo.text keyIp = infoValueForKey cl.userinfo.text keyIp

def rateApply (v : Cvars) (cl : Client) : Client :=
  let rate := if cl.rate < v.svMinRate then v.svMinRate else cl.rate
  let fps := if v.svFps < 1 then 10 else v.svFps
  let maxSnaps := if v.svMaxSnaps > 0 ∧ v.svMaxSnaps < fps then v.svMaxSnaps else fps
  let minSnaps := if v.svMinSnaps < maxSnaps then v.svMinSnaps else maxSnaps
  let val := infoValueForKey cl.userinfo.text "snaps".toList
  let snaps := if val ≠ [] then atoi val else 20
  let snaps := if snaps < minSnaps then minSnaps else snaps
  let snaps := if snaps > maxSnaps then maxSnaps else snaps
  let snaps := if snaps < 1 then 1 else snaps
  { cl with rate := rate, snapshotMsec := 1000 / snaps }

@[simp] theorem rateApply_userinfo (v : Cvars) (cl : Client) : (rateApply v cl).userinfo = cl.userinfo := rfl

/-- A model name that is not printable ASCII or too long; the cvar is cast to a
    32-bit `size_t`, so that a negative one allows any length. -/
def badModel (v : Cvars) (val : CString) : Bool :=
  !qIsValidAsciiStr val || val.length ≥ (v.proxySvModelPathLength % 2 ^ 32).toNat

def testedLength (ip userinfo : CString) : Int :=
  let val := infoValueForKey userinfo keyIp
  if val ≠ [] then (ip.length : Int) - val.length + userinfo.length else (ip.length : Int) + 4 + userinfo.length

/-- The client after the function, and the reason of `SV_DropClient` if it was called. -/
structure Outcome where
  client : Client
  dropped : Option CString

def lengthExceeded : CString := "userinfo string length exceeded".toList

def proxySvUserinfoChanged (E : Engine) (v : Cvars) (cl : Client) : Outcome :=
  let ip := addressText E cl.remoteAddress
  if testedLength ip cl.userinfo.text ≥ maxInfoString then ⟨cl, some lengthExceeded⟩
  else
    -- The result of `Info_SetValueForKey` is not looked at.
    let cl := { cl with userinfo := (cl.userinfo.set keyIp ip).2 }
    if badModel v (infoValueForKey cl.userinfo.text keyModel) then
      let set := cl.userinfo.set keyModel kyle
      let cl := { cl with userinfo := set.2 }
      if !set.1 then ⟨cl, some lengthExceeded⟩ else ⟨rateApply v (E.originalSvUserinfoChanged cl), none⟩
    else ⟨rateApply v (E.originalSvUserinfoChanged cl), none⟩

/-! ## Where the address is kept -/

def NoRoomForKyle (v : Cvars) (userinfo : CString) : Prop :=
  badModel v (infoValueForKey userinfo keyModel) = true ∧ ¬ Room userinfo keyModel kyle

def withModel (v : Cvars) (userinfo : CString) : CString :=
  if badModel v (infoValueForKey userinfo keyModel) then (infoSetValueForKey userinfo keyModel kyle).2 else userinfo

/-- The userinfos whose `ip` value the function settles. The first two are its
    design: the length test refuses the userinfo, or the pair fits and what
    follows it starts with a backslash. The other two are accidents: the client
    is dropped for its model name, or the `ip` value that the client wrote, left
    in place because there was no room, is the address itself. -/
def IpSettled (v : Cvars) (ip userinfo : CString) : Prop :=
  (maxInfoString : Int) ≤ testedLength ip userinfo ∨
  (Room userinfo keyIp ip ∧ Delimited '\\' (infoRemoveKey userinfo keyIp)) ∨
  NoRoomForKyle v (infoSetValueForKey userinfo keyIp ip).2 ∨
  (¬ Room userinfo keyIp ip ∧ infoValueForKey (withModel v (infoRemoveKey userinfo keyIp)) keyIp = ip)

theorem plain_keyIp : Plain keyIp := by decide
theorem plain_keyModel : Plain keyModel := by decide
theorem plain_kyle : Plain kyle := by decide

theorem addressText_short {E : Engine} (documented : Documented E) (a : Netadr) : (addressText E a).length < 64 := by
  unfold addressText
  split
  · decide
  · exact documented.address_short a
theorem addressText_plain {E : Engine} (documented : Documented E) (a : Netadr) : Plain (addressText E a) := by
  unfold addressText
  split
  · decide
  · exact documented.address_plain a
theorem addressText_ne_nil {E : Engine} (documented : Documented E) (a : Netadr) : addressText E a ≠ [] := by
  unfold addressText
  split
  · decide
  · exact documented.address_ne_nil a

theorem set_kyle_iff (userinfo : CString) : (infoSetValueForKey userinfo keyModel kyle).1 = true ↔
    Room userinfo keyModel kyle := by
  by_cases room : Room userinfo keyModel kyle
  · simp [infoSetValueForKey_of_room plain_keyModel plain_kyle (by decide) room, room]
  · simp [infoSetValueForKey_of_full plain_keyModel plain_kyle (by decide) (by decide) room, room]

theorem withModel_ip (v : Cvars) {userinfo : CString} (delimited : Delimited '\\' userinfo) :
    infoValueForKey (withModel v userinfo) keyIp = infoValueForKey userinfo keyIp := by
  unfold withModel
  split
  · exact infoValueForKey_infoSetValueForKey delimited plain_keyModel (by decide) (by decide)
  · rfl

theorem leaves_ip {E : Engine} (documented : Documented E) (a : Netadr) (userinfo : CString) :
    Leaves (addressText E a) (infoSetValueForKey userinfo keyIp (addressText E a)).2 := by
  have short := addressText_short documented a
  have sizes : keyIp.length = 2 ∧ maxInfoString = 1024 := ⟨rfl, rfl⟩
  by_cases room : Room userinfo keyIp (addressText E a)
  · rw [infoSetValueForKey_of_room plain_keyIp (addressText_plain documented a) (addressText_ne_nil documented a) room]
    exact .inl rfl
  · rw [infoSetValueForKey_of_full plain_keyIp (addressText_plain documented a) (addressText_ne_nil documented a) (by omega) room]
    exact .inr (Nat.le_of_not_lt room)

theorem delimited_kyle {userinfo : CString} (room : Room userinfo keyModel kyle) :
    Delimited '\\' (infoSetValueForKey userinfo keyModel kyle).2 := by
  rw [infoSetValueForKey_of_room plain_keyModel plain_kyle (by decide) room]
  rfl

theorem proxySvUserinfoChanged_of_short {E : Engine} (documented : Documented E) (v : Cvars) (cl : Client)
    (short : testedLength (addressText E cl.remoteAddress) cl.userinfo.text < maxInfoString) :
    let userinfo := (infoSetValueForKey cl.userinfo.text keyIp (addressText E cl.remoteAddress)).2
    let outcome := proxySvUserinfoChanged E v cl
    (NoRoomForKyle v userinfo ∧ outcome.dropped.isSome) ∨
    (¬ NoRoomForKyle v userinfo ∧ outcome.dropped = none ∧
      infoValueForKey outcome.client.userinfo.text keyIp = infoValueForKey (withModel v userinfo) keyIp) := by
  intro userinfo outcome
  have left : Leaves (addressText E cl.remoteAddress) userinfo := leaves_ip documented cl.remoteAddress cl.userinfo.text
  simp only [outcome, proxySvUserinfoChanged, if_neg (Int.not_le.mpr short), Infostring.set]
  by_cases bad : badModel v (infoValueForKey userinfo keyModel) = true
  · by_cases room : Room userinfo keyModel kyle
    · refine .inr ⟨?_, ?_, ?_⟩
      · intro stuck
        exact stuck.2 room
      · simp [userinfo, bad, (set_kyle_iff userinfo).mpr room]
      · have start : Leaves (addressText E cl.remoteAddress) (infoSetValueForKey userinfo keyModel kyle).2 :=
          .inl (delimited_kyle room)
        simp [userinfo, withModel, bad, (set_kyle_iff userinfo).mpr room, documented.keeps_ip, start]
    · have failed : (infoSetValueForKey userinfo keyModel kyle).1 = false := by
        simpa using mt (set_kyle_iff userinfo).mp room
      exact .inl ⟨⟨bad, room⟩, by simp [userinfo, bad, failed]⟩
  · refine .inr ⟨?_, ?_, ?_⟩
    · intro stuck
      exact bad stuck.1
    · simp [userinfo, bad]
    · simp [userinfo, withModel, bad, documented.keeps_ip, left]

/-- With room the `ip` value is the address and whatever of the old text joins it. -/
theorem ip_of_room {E : Engine} (documented : Documented E) (v : Cvars) (a : Netadr) {userinfo : CString}
    (room : Room userinfo keyIp (addressText E a)) :
    infoValueForKey (withModel v (infoSetValueForKey userinfo keyIp (addressText E a)).2) keyIp =
      addressText E a ++ upTo '\\' (infoRemoveKey userinfo keyIp) := by
  have plain := addressText_plain documented a
  rw [infoSetValueForKey_of_room plain_keyIp plain (addressText_ne_nil documented a) room,
    withModel_ip v (by rfl), infoValueForKey_entry_joined plain_keyIp plain]
  rfl

theorem upTo_eq_nil_iff (t : CString) : upTo '\\' t = [] ↔ Delimited '\\' t := by
  cases t with
  | nil => simp [upTo, Delimited]
  | cons c t => by_cases same : c = '\\' <;> simp [upTo, Delimited, same]

/-- The function drops the client or leaves the address of the connection as the
    `ip` value exactly for the userinfos of `IpSettled`. -/
theorem userinfoChanged_ip_iff {E : Engine} (documented : Documented E) (v : Cvars) (cl : Client) :
    ((proxySvUserinfoChanged E v cl).dropped.isSome ∨
      infoValueForKey (proxySvUserinfoChanged E v cl).client.userinfo.text keyIp =
        addressText E cl.remoteAddress) ↔
    IpSettled v (addressText E cl.remoteAddress) cl.userinfo.text := by
  set ip := addressText E cl.remoteAddress with ipIs
  set s := cl.userinfo.text with sIs
  by_cases refused : (maxInfoString : Int) ≤ testedLength ip s
  · refine iff_of_true (.inl ?_) (.inl refused)
    simp [proxySvUserinfoChanged, ← ipIs, ← sIs, refused]
  · rcases proxySvUserinfoChanged_of_short documented v cl (Int.not_le.mp refused) with
      ⟨stuck, dropped⟩ | ⟨free, kept, value⟩
    · exact iff_of_true (.inl dropped) (.inr (.inr (.inl stuck)))
    · rw [← ipIs, ← sIs] at free value
      rw [kept, value]
      simp only [Option.isSome_none, Bool.false_eq_true, false_or]
      by_cases room : Room s keyIp ip
      · rw [ip_of_room documented v cl.remoteAddress room, ← ipIs, List.append_right_eq_self, upTo_eq_nil_iff]
        constructor
        · intro delimited
          exact .inr (.inl ⟨room, delimited⟩)
        · rintro (long | ⟨_, delimited⟩ | stuck | ⟨full, _⟩)
          · exact absurd long refused
          · exact delimited
          · exact absurd stuck free
          · exact absurd room full
      · have short : keyIp.length + ip.length + 2 < maxInfoString := by
          have := addressText_short documented cl.remoteAddress
          have two : keyIp.length = 2 := rfl
          have size : maxInfoString = 1024 := rfl
          rw [← ipIs] at this
          omega
        have left : (infoSetValueForKey s keyIp ip).2 = infoRemoveKey s keyIp := by
          rw [infoSetValueForKey_of_full plain_keyIp (addressText_plain documented _)
            (addressText_ne_nil documented _) short room]
        rw [left] at free ⊢
        constructor
        · intro same
          exact .inr (.inr (.inr ⟨room, same⟩))
        · rintro (long | ⟨fits, _⟩ | stuck | ⟨_, same⟩)
          · exact absurd long refused
          · exact absurd fits room
          · exact absurd (left ▸ stuck) free
          · exact same

/-! ## Userinfos that keep their own `ip` -/

/-- An engine whose original function changes nothing, with the address texts of the retail one. -/
def plainEngine : Engine where
  netAdrToString a := match a.type with
    | .naLoopback => "loopback".toList
    | .naBot => "bot".toList
    | _ => adrString a.ip a.port
  originalSvUserinfoChanged cl := cl

theorem plainEngine_documented : Documented plainEngine := by
  refine ⟨?_, ?_, ?_, fun _ _ => rfl⟩
  · intro a
    have bound := length_adrString_le a.ip a.port
    simp only [plainEngine]
    split
    · decide
    · decide
    · omega
  · intro a
    simp only [plainEngine]
    split
    · decide
    · decide
    · exact plain_adrString a.ip a.port
  · intro a
    simp only [plainEngine]
    split
    · decide
    · decide
    · exact adrString_ne_nil a.ip a.port

def sampleCvars : Cvars := ⟨64, 1000, 1, 30, 40⟩

def sampleClient (userinfo : CString) : Client :=
  ⟨.copy userinfo, ⟨.naIp, ⟨10, 20, 30, 40⟩, 29070⟩, 4000, 50⟩

def upperCaseClient : Client := sampleClient ("\\IP\\1.2.3.4\\x\\".toList ++ List.replicate 996 'y')
def openClient : Client := sampleClient "5\\name\\Bob".toList

/-- Two userinfos that the `userinfo` command can carry: an upper-case `IP` in a
    text of 1010 characters, which the case-sensitive removal leaves and whose
    length the test subtracts, and a text without its leading backslash, whose
    first character joins the port. Neither client is dropped. -/
theorem userinfoChanged_ip_forged :
    (proxySvUserinfoChanged plainEngine sampleCvars upperCaseClient).dropped = none ∧
    infoValueForKey (proxySvUserinfoChanged plainEngine sampleCvars upperCaseClient).client.userinfo.text keyIp =
      "1.2.3.4".toList ∧
    (proxySvUserinfoChanged plainEngine sampleCvars openClient).dropped = none ∧
    infoValueForKey (proxySvUserinfoChanged plainEngine sampleCvars openClient).client.userinfo.text keyIp =
      "10.20.30.40:290705".toList ∧
    addressText plainEngine upperCaseClient.remoteAddress = "10.20.30.40:29070".toList ∧
    addressText plainEngine openClient.remoteAddress = "10.20.30.40:29070".toList := by
  decide +kernel

theorem userinfoChanged_ip_kept :
    (proxySvUserinfoChanged plainEngine sampleCvars (sampleClient "\\name\\Bob".toList)).dropped.isSome ∨
      infoValueForKey (proxySvUserinfoChanged plainEngine sampleCvars
        (sampleClient "\\name\\Bob".toList)).client.userinfo.text keyIp =
          addressText plainEngine ⟨.naIp, ⟨10, 20, 30, 40⟩, 29070⟩ :=
  (userinfoChanged_ip_iff plainEngine_documented sampleCvars (sampleClient "\\name\\Bob".toList)).mpr
    (.inr (.inl (by decide +kernel)))

end YbeProxy.UserinfoChanged
