import YbeProxy.Infostrings

/-!
# Userinfo checks

`Features/Userinfo.cpp`: the validation of a userinfo, unique and clean names (`Proxy_ClientCleanName` of
`sdk/server/sv_client.cpp`), and the sanitized text that the game gets. The names and the other texts of clients are
read from their configstrings.
-/

namespace YbeProxy.Userinfo
open YbeProxy.Strings YbeProxy.KeyValueText YbeProxy.Infostrings

def maxClients : Nat := 32
def maxNetname : Nat := 36
def numForcePowers : Nat := 18

/-! ## Validation -/

structure UserinfoField where
  name : CString
  minCount : Nat
  maxCount : Nat

def userinfoFields : List UserinfoField :=
  [⟨"cl_guid".toList, 0, 0⟩, ⟨"cl_punkbuster".toList, 0, 0⟩, ⟨"ip".toList, 0, 1⟩, ⟨"name".toList, 1, 1⟩,
    ⟨"rate".toList, 1, 1⟩, ⟨"snaps".toList, 1, 1⟩, ⟨"model".toList, 1, 1⟩, ⟨"forcepowers".toList, 1, 1⟩,
    ⟨"color1".toList, 1, 1⟩, ⟨"color2".toList, 1, 1⟩, ⟨"handicap".toList, 1, 1⟩, ⟨"sex".toList, 0, 1⟩,
    ⟨"cg_predictItems".toList, 1, 1⟩, ⟨"saber1".toList, 1, 1⟩, ⟨"saber2".toList, 1, 1⟩,
    ⟨"char_color_red".toList, 1, 1⟩, ⟨"char_color_green".toList, 1, 1⟩, ⟨"char_color_blue".toList, 1, 1⟩,
    ⟨"teamtask".toList, 0, 1⟩, ⟨"password".toList, 0, 1⟩, ⟨"teamoverlay".toList, 0, 1⟩]

theorem length_infoNextPair_head {head : CString} (key : (infoNextPair head).key ≠ []) :
    (infoNextPair head).head.length < head.length := by
  simp only [infoNextPair, skip_eq] at key ⊢
  split at key
  · exact absurd rfl key
  · split at key
    · exact absurd rfl key
    · rename_i more named
      have shorter := length_rest_lt '\\' more
      have skipped := length_skip_le '\\' head
      rw [if_neg more, if_neg named]
      exact Nat.lt_of_lt_of_le shorter skipped

/-- The keys that the loop over `Info_NextPair` counts: up to the first empty one. -/
def pairKeys (head : CString) : List CString :=
  if (infoNextPair head).key = [] then [] else (infoNextPair head).key :: pairKeys (infoNextPair head).head
termination_by head.length
decreasing_by exact length_infoNextPair_head ‹_›

def fieldCount (keys : List CString) (field : UserinfoField) : Nat :=
  keys.countP fun key => qStricmp key field.name = 0

def fieldReason (keys : List CString) (field : UserinfoField) : Option CString :=
  if field.minCount ≠ 0 ∧ fieldCount keys field = 0 then
    some (comSprintf 64 (field.name ++ " field not found".toList))
  else if fieldCount keys field > field.maxCount then
    some (comSprintf 64 ("Too many ".toList ++ field.name ++ " fields (".toList ++ decimal (fieldCount keys field) ++
      "/".toList ++ decimal field.maxCount ++ ")".toList))
  else none

/-- `Validate`: none, or why the userinfo is not valid. -/
def validate (userinfo : CString) : Option CString :=
  if userinfo.length < 1 then some "Userinfo too short".toList
  else if userinfo.length ≥ maxInfoString then some "Userinfo too long".toList
  else if userinfo.head? ≠ some '\\' then some "Missing leading slash".toList
  else if userinfo.getLast? = some '\\' then some "Trailing slash".toList
  else if userinfo.count '\\' % 2 = 1 then some "Bad number of slashes".toList
  else if (qStrchrs userinfo "\n\r;\"".toList).isSome then some "Invalid characters found".toList
  else userinfoFields.findSome? (fieldReason (pairKeys userinfo))

/-! ## Names -/

/-- A character that a clean name leaves out, with the characters behind it. -/
def dirty (c : Char) (rest : CString) : Bool :=
  (c = ' ' && rest.take 2 == [' ', ' ']) || (c = '@' && rest.take 2 == ['@', '@']) || c.toNat < 0x20 ||
    [0x81, 0x8D, 0x8F, 0x90, 0x9D, 0xA0, 0xAD].contains c.toNat

/-- The loop of `Proxy_ClientCleanName`: the characters kept and the length without color codes. -/
def cleanLoop (outSize : Nat) : CString → CString → Int → CString × Int
  | [], out, colorlessLen => (out, colorlessLen)
  | c :: rest, out, colorlessLen =>
    if ¬ out.length < outSize - 1 then (out, colorlessLen)
    else if dirty c rest then cleanLoop outSize rest out colorlessLen
    -- A digit behind a color escape takes the escape back.
    else if out.getLast? = some '^' ∧ isDigit c then cleanLoop outSize rest (out ++ [c]) (colorlessLen - 1)
    else cleanLoop outSize rest (out ++ [c]) (colorlessLen + 1)

def proxyClientCleanName (name : CString) (outSize : Nat) : CString :=
  let cleaned := cleanLoop outSize ((name.dropWhile (· = ' ')).dropWhile (· = '*')) [] 0
  if cleaned.1 = [] ∨ cleaned.2 = 0 then qStrncpyz "Padawan".toList outSize else cleaned.1

/-- `NameKey`: what two names are compared on. -/
def nameKey (name : CString) (keySize : Nat) : CString := (qStripColor (qStrncpyz name keySize)).filter (· ≠ ' ')

/-- The configstring of a player (`CS_PLAYERS + i`), in a buffer of `MAX_INFO_STRING`. -/
def playerInfo (players : Nat → CString) (i : Nat) : CString := qStrncpyz (players i) maxInfoString

def othersKeys (players : Nat → CString) (clientNum : Nat) : List CString :=
  ((List.range maxClients).filter fun i => i ≠ clientNum ∧ playerInfo players i ≠ []).map fun i =>
    nameKey (infoValueForKey (playerInfo players i) "n".toList) maxNetname

def inUse (others : List CString) (candidate : CString) : Bool :=
  others.any fun other => qStricmp (nameKey candidate maxNetname) other = 0

/-- The name in front of a number: cut to leave room, and with no color escape at its end. -/
def numberedBase (name : CString) : CString :=
  let base := qStrncpyz name (maxNetname - 6)
  if base.getLast? = some '^' then base.dropLast else base

def candidate (name : CString) (number : Nat) : CString :=
  comSprintf maxNetname (numberedBase name ++ "^7[".toList ++ decimal number ++ "]".toList)

/-- `UniqueName`: the name, or its first numbered form that no other client uses. -/
def uniqueName (players : Nat → CString) (clientNum : Nat) (name : CString) : CString :=
  let others := othersKeys players clientNum
  if !inUse others name then name
  else match (List.range' 1 maxClients).find? fun number => !inUse others (candidate name number) with
    | some number => qStrncpyz (candidate name number) maxNetname
    | none => name

/-! ## The sanitized userinfo -/

structure Environment where
  proxySvAllowSamePlayerNames : Bool
  proxySvModelPathLength : Int
  players : Nat → CString

/-- Why a userinfo is refused, and whether for a cheat. -/
structure Refusal where
  reason : CString
  isAntiCheat : Bool
  deriving DecidableEq

/-- `Info_SetValueForKey`, with the refusal of a userinfo that has no room. -/
def put (userinfo : Infostring) (key value : CString) : Except Refusal Infostring :=
  if (userinfo.set key value).1 then .ok (userinfo.set key value).2
  else .error ⟨"Userinfo string length exceeded.".toList, false⟩

def badModel (env : Environment) (val : CString) : Bool :=
  val = [] || qStricmp val "jedi_".toList = 0 || qStricmpn val "jedi_/".toList 6 = 0 ||
    qStricmpn val "rancor".toList 6 = 0 || qStricmpn val "wampa".toList 5 = 0 || !qIsValidAsciiStr val ||
    val.length ≥ (env.proxySvModelPathLength % 2 ^ 32).toNat

def fixModel (env : Environment) (userinfo : Infostring) : Except Refusal Infostring :=
  let val := infoValueForKey userinfo.text "model".toList
  if qStricmpn val "darksidetools".toList 13 = 0 then
    .error ⟨"(Anti-Cheat system) you got kicked cause of cheating".toList, true⟩
  else if badModel env val then put userinfo "model".toList "kyle".toList
  else .ok userinfo

def fixColor (colorKey : CString) (userinfo : Infostring) : Except Refusal Infostring :=
  let val := infoValueForKey userinfo.text colorKey
  if val.length > 15 then put userinfo colorKey (qStrncpyz val 16) else .ok userinfo

structure ForceScan where
  bad : Bool
  seps : Nat
  powersStart : Nat

/-- The loop over the force powers, from character `i` behind `prev`. -/
def scanForce : Nat → Option Char → ForceScan → CString → ForceScan
  | _, _, scan, [] => scan
  | i, prev, scan, c :: rest =>
    if c ≠ '-' ∧ isDigit c = false then { scan with bad := true }
    else if (i < 1 ∨ i > 5) ∧ c = '-' then { scan with bad := true }
    else if prev = some '-' ∧ c = '-' then { scan with bad := true }
    else if scan.seps = 2 ∧ c > '3' then { scan with bad := true }
    else if c = '-' then scanForce (i + 1) (some c) ⟨scan.bad, scan.seps + 1, i + 1⟩ rest
    else scanForce (i + 1) (some c) scan rest

def badForce (forcePowers : CString) : Bool :=
  if 22 ≤ forcePowers.length ∧ forcePowers.length ≤ 24 then
    let scan := scanForce 0 none ⟨false, 0, 0⟩ forcePowers
    scan.bad || scan.seps ≠ 2 || forcePowers.length - scan.powersStart < numForcePowers
  else true

def forcePowers (val : CString) : CString :=
  let powers := qStrncpyz val 30
  if badForce powers then "7-1-030000000000003332".toList else powers

def cleanName (env : Environment) (clientNum : Nat) (userinfo : CString) : CString :=
  let name := proxyClientCleanName (infoValueForKey userinfo "name".toList) maxNetname
  if env.proxySvAllowSamePlayerNames then name else uniqueName env.players clientNum name

def sanitizeText (env : Environment) (clientNum : Nat) (userinfo : Infostring) : Except Refusal Infostring := do
  let userinfo ← put userinfo "name".toList (cleanName env clientNum userinfo.text)
  let userinfo ← fixModel env userinfo
  let userinfo ← fixColor "color1".toList userinfo
  let userinfo ← fixColor "color2".toList userinfo
  put userinfo "forcepowers".toList (forcePowers (infoValueForKey userinfo.text "forcepowers".toList))

/-- What `Sanitize` leaves: a refusal, the clean name where it came to write one, and the userinfo that the engine
holds. -/
structure Sanitized where
  refusal : Option Refusal
  cleanName : Option CString
  userinfo : Infostring

def validationReason (invalid : CString) : CString :=
  comSprintf 96 ("Failed userinfo validation: ".toList ++ invalid)

def sanitize (env : Environment) (clientNum : Nat) (validated : Bool) (userinfo : Infostring) : Sanitized :=
  match if validated then validate userinfo.text else none with
  | some invalid => ⟨some ⟨validationReason invalid, false⟩, none, userinfo⟩
  | none =>
    if userinfo.text.length = 0 then ⟨none, none, userinfo⟩
    else
      let clean := cleanName env clientNum userinfo.text
      match sanitizeText env clientNum userinfo with
      | .ok sanitized => ⟨none, some clean, sanitized⟩
      | .error refusal => ⟨some refusal, some clean, userinfo⟩

/-! ## Lengths -/

theorem length_cleanLoop (outSize : Nat) (text out : CString) (colorlessLen : Int) (fits : out.length ≤ outSize - 1) :
    (cleanLoop outSize text out colorlessLen).1.length ≤ outSize - 1 := by
  induction text generalizing out colorlessLen with
  | nil => exact fits
  | cons c rest hypothesis =>
    rw [cleanLoop]
    split
    · exact fits
    · split
      · exact hypothesis out _ fits
      · split
        · refine hypothesis _ _ ?_
          rw [List.length_append, List.length_singleton]
          omega
        · refine hypothesis _ _ ?_
          rw [List.length_append, List.length_singleton]
          omega

theorem length_proxyClientCleanName (name : CString) (outSize : Nat) :
    (proxyClientCleanName name outSize).length ≤ outSize - 1 := by
  simp only [proxyClientCleanName]
  split
  · exact List.length_take_le _ _
  · exact length_cleanLoop outSize _ [] 0 (Nat.zero_le _)

/-- The name is the cleaned one, or a numbered form of it. -/
theorem cleanName_cases (env : Environment) (clientNum : Nat) (userinfo : CString) :
    cleanName env clientNum userinfo = proxyClientCleanName (infoValueForKey userinfo "name".toList) maxNetname ∨
      ∃ name number, cleanName env clientNum userinfo = qStrncpyz (candidate name number) maxNetname := by
  simp only [cleanName]
  split
  · exact .inl rfl
  · simp only [uniqueName]
    split
    · exact .inl rfl
    · split
      · exact .inr ⟨_, _, rfl⟩
      · exact .inl rfl

theorem length_cleanName (env : Environment) (clientNum : Nat) (userinfo : CString) :
    (cleanName env clientNum userinfo).length ≤ 35 := by
  rcases cleanName_cases env clientNum userinfo with clean | ⟨name, number, same⟩
  · rw [clean]
    exact length_proxyClientCleanName _ maxNetname
  · rw [same]
    exact List.length_take_le _ _

theorem length_forcePowers (val : CString) : (forcePowers val).length ≤ 29 := by
  simp only [forcePowers]
  split
  · decide
  · exact List.length_take_le _ _

/-! ## What sanitizing leaves alone -/

/-- The sanitized text starts like an info string and keeps the value of a key. -/
def Keeps (asked : CString) (before after : Infostring) : Prop :=
  Delimited '\\' before.text → Delimited '\\' after.text ∧
    infoValueForKey after.text asked = infoValueForKey before.text asked

theorem Keeps.refl (asked : CString) (userinfo : Infostring) : Keeps asked userinfo userinfo := fun slash => ⟨slash, rfl⟩

theorem Keeps.trans {asked : CString} {a b c : Infostring} (first : Keeps asked a b) (second : Keeps asked b c) :
    Keeps asked a c := by
  intro slash
  obtain ⟨slash, same⟩ := first slash
  obtain ⟨slash, again⟩ := second slash
  exact ⟨slash, again.trans same⟩

theorem keeps_put {asked key value : CString} {before after : Infostring} (done : put before key value = .ok after)
    (keyPlain : Plain key) (short : key.length + value.length + 2 < maxInfoString) (apart : qStricmp asked key ≠ 0) :
    Keeps asked before after := by
  rw [put] at done
  split at done
  · obtain rfl := Except.ok.inj done
    intro slash
    exact ⟨delimited_infoSetValueForKey slash keyPlain short,
      infoValueForKey_infoSetValueForKey slash keyPlain short apart⟩
  · cases done

theorem keeps_fixModel {asked : CString} {env : Environment} {before after : Infostring}
    (done : fixModel env before = .ok after) (apart : qStricmp asked "model".toList ≠ 0) : Keeps asked before after := by
  simp only [fixModel] at done
  split at done
  · cases done
  · split at done
    · exact keeps_put done (by decide) (by decide) apart
    · obtain rfl := Except.ok.inj done
      exact Keeps.refl asked before

theorem keeps_fixColor {asked colorKey : CString} {before after : Infostring}
    (done : fixColor colorKey before = .ok after) (keyPlain : Plain colorKey) (short : colorKey.length ≤ 1000)
    (apart : qStricmp asked colorKey ≠ 0) : Keeps asked before after := by
  simp only [fixColor] at done
  split at done
  · have cut : (qStrncpyz (infoValueForKey before.text colorKey) 16).length ≤ 15 := List.length_take_le _ _
    have size : maxInfoString = 1024 := rfl
    exact keeps_put done keyPlain (by omega) apart
  · obtain rfl := Except.ok.inj done
    exact Keeps.refl asked before

/-- A key that is none of the five that are written keeps its value. -/
theorem keeps_sanitizeText {asked : CString} {env : Environment} {clientNum : Nat} {before after : Infostring}
    (done : sanitizeText env clientNum before = .ok after)
    (apart : ∀ key ∈ ["name", "model", "color1", "color2", "forcepowers"], qStricmp asked key.toList ≠ 0) :
    Keeps asked before after := by
  have size : maxInfoString = 1024 := rfl
  simp only [sanitizeText, bind, Except.bind] at done
  split at done
  · cases done
  rename_i named name
  split at done
  · cases done
  rename_i modelled model
  split at done
  · cases done
  rename_i first color1
  split at done
  · cases done
  rename_i second color2
  have clean := length_cleanName env clientNum before.text
  have powers := length_forcePowers (infoValueForKey second.text "forcepowers".toList)
  have lengths : "name".toList.length = 4 ∧ "forcepowers".toList.length = 11 := by decide
  exact (keeps_put name (by decide) (by omega) (apart "name" (by decide))).trans
    ((keeps_fixModel model (apart "model" (by decide))).trans
    ((keeps_fixColor color1 (by decide) (by decide) (apart "color1" (by decide))).trans
    ((keeps_fixColor color2 (by decide) (by decide) (apart "color2" (by decide))).trans
    (keeps_put done (by decide) (by omega) (apart "forcepowers" (by decide))))))

theorem delimited_of_validate {userinfo : CString} (valid : validate userinfo = none) : Delimited '\\' userinfo := by
  rw [validate] at valid
  split at valid
  · cases valid
  split at valid
  · cases valid
  split at valid
  · cases valid
  rename_i slash
  rw [delimited_iff]
  cases userinfo with
  | nil => exact Or.inl rfl
  | cons c rest =>
    simp only [List.head?_cons, ne_eq, Option.some.injEq, Decidable.not_not] at slash
    exact Or.inr ⟨rest, by rw [slash]⟩

/-- A userinfo that `Sanitize` validates and accepts keeps its `ip` value. -/
theorem sanitize_keeps_ip {env : Environment} {clientNum : Nat} {userinfo : Infostring}
    (accepted : (sanitize env clientNum true userinfo).refusal = none) :
    infoValueForKey (sanitize env clientNum true userinfo).userinfo.text "ip".toList =
      infoValueForKey userinfo.text "ip".toList := by
  rw [sanitize] at accepted ⊢
  simp only [if_true] at accepted ⊢
  cases valid : validate userinfo.text with
  | some invalid => simp [valid] at accepted
  | none =>
    rw [valid] at accepted
    simp only at accepted ⊢
    split
    · rfl
    · rename_i text
      rw [if_neg text] at accepted
      cases done : sanitizeText env clientNum userinfo with
      | ok sanitized => exact (keeps_sanitizeText done (by decide) (delimited_of_validate valid)).2
      | error refusal => simp [done] at accepted

end YbeProxy.Userinfo
