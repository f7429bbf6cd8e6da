import Mathlib.Data.List.Nodup
import YbeProxy.ActiveClients
import YbeProxy.ChecksumText
import YbeProxy.ForLoop

/-!
# The loops of the pure check

`Proxy_SV_VerifyPaks_f` with its two arrays and the token buffer that it overwrites. The arrays are indexed inside of
their bounds, whatever they hold at first, and the loops come to the check of the checksums as a whole.
-/

namespace YbeProxy.VerifyPaks
open YbeProxy.Strings YbeProxy.ServerCommands YbeProxy.ForLoop YbeProxy.ChecksumText
open YbeProxy.Cmd (cmdArgv cmdTokenizeString2 maxStringTokens bigInfoString tokensFrom)

abbrev ChkSums := Vector Int32 1024

/-- The file that a client has the cgame from. -/
def cgameFile (env : Env) : CString := if env.vmCgame then "vm/cgame.qvm".toList else "cgamex86.dll".toList

def uiFile (env : Env) : CString := if env.vmUi then "vm/ui.qvm".toList else "uix86.dll".toList

/-- None of the client checksums are the same. -/
def allDiffer (nClientChkSum : ChkSums) (nClientPaks : ℕ) : Option Bool :=
  throughout (fun i => throughout (fun j =>
    if i = j then some true
    else do
      let x ← nClientChkSum[i]?
      let y ← nClientChkSum[j]?
      return x ≠ y) 0 nClientPaks) 0 nClientPaks

/-- The client has provided no checksum of a pk3 file that is not loaded by the server. -/
def allKnown (nClientChkSum nServerChkSum : ChkSums) (nClientPaks nServerPaks : ℕ) : Option Bool :=
  throughout (fun i => do
    let missing ← throughout (fun j => do
      let x ← nClientChkSum[i]?
      let y ← nServerChkSum[j]?
      return x ≠ y) 0 nServerPaks
    return !missing) 0 nClientPaks

def sumUp (nClientChkSum : ChkSums) (nClientPaks : ℕ) (checksumFeed : Int32) : Option Int32 :=
  each (fun i nChkSum1 => do
    let x ← nClientChkSum[i]?
    return nChkSum1 ^^^ x) 0 nClientPaks checksumFeed

variable (env : Env)

/-- The loop that avoids a `goto`, and the token buffer behind it. -/
def checkPaks (tokens : List CString) (nChkSum1 nChkSum2 : Int32) (nClientChkSum nServerChkSum : ChkSums) :
    Option (Bool × List CString) :=
  let nClientPaks := tokens.length
  if nClientPaks < 6 then some (false, tokens)
  else if (cmdArgv tokens 1).head? = some '@' ∨ number (cmdArgv tokens 1) ≠ nChkSum1 then some (false, tokens)
  else if (cmdArgv tokens 2).head? = some '@' ∨ number (cmdArgv tokens 2) ≠ nChkSum2 then some (false, tokens)
  else if (cmdArgv tokens 3).head? ≠ some '@' then some (false, tokens)
  else do
    let nCurArg := 4
    let i := nClientPaks - nCurArg
    let nClientChkSum ← each (fun i array => store array i (number (cmdArgv tokens (nCurArg + i)))) 0 i nClientChkSum
    -- `i` is at least 2.
    let nClientPaks := i - 1
    if !(← allDiffer nClientChkSum nClientPaks) then return (false, tokens)
    let tokens := cmdTokenizeString2 env.fsLoadedPakPureChecksums false
    let nServerPaks := min tokens.length 1024
    let nServerChkSum ← each (fun i array => store array i (number (cmdArgv tokens i))) 0 nServerPaks nServerChkSum
    if !(← allKnown nClientChkSum nServerChkSum nClientPaks nServerPaks) then return (false, tokens)
    let nChkSum1 ← sumUp nClientChkSum nClientPaks env.checksumFeed
    let last ← nClientChkSum[nClientPaks]?
    return (nChkSum1 ^^^ Int32.ofNat nClientPaks = last, tokens)

/-- The value of `bGood` in the end: there is nothing to compare with where a file of the server is in no pak. -/
def compareSums (tokens : List CString) (nClientChkSum nServerChkSum : ChkSums) : Option (Bool × List CString) :=
  match env.fsFileIsInPak (cgameFile env) with
  | none => some (false, tokens)
  | some nChkSum1 =>
    match env.fsFileIsInPak (uiFile env) with
    | none => some (false, tokens)
    | some nChkSum2 => checkPaks env tokens nChkSum1 nChkSum2 nClientChkSum nServerChkSum

/-- `Proxy_SV_VerifyPaks_f`, with what its arrays hold at first. -/
def verifyPaks (tokens : List CString) (nClientChkSum nServerChkSum : ChkSums) (work : Work) :
    Option (Work × List CString) :=
  if env.svPure then do
    let (bGood, tokens) ← compareSums env tokens nClientChkSum nServerChkSum
    if bGood then return ({ work with cl := { work.cl with pureAuthentic := 1 } }, tokens)
    let work := { work with cl := { work.cl with pureAuthentic := 0, nextSnapshotTime := -1, state := .csActive } }
    let work := { work.log .svSendClientSnapshot with cl := env.svSendClientSnapshot work.cl }
    return (work.dropClient env "Unpure client detected. Invalid .PK3 files referenced!".toList, tokens)
  else some (work, tokens)

/-! ## What the loops come to -/

/-- The checksums of the client, without the last one, which is their number in disguise. -/
def clientSums (tokens : List CString) : List Int32 := ((tokens.drop 4).map number).dropLast

/-- The checksums of the server, as it reads them from their text. -/
def serverSums : List Int32 := ((cmdTokenizeString2 env.fsLoadedPakPureChecksums false).take 1024).map number

theorem clientSums_eq (tokens : List CString) :
    clientSums tokens = (List.range (tokens.length - 5)).map fun i => number (cmdArgv tokens (4 + i)) := by
  refine List.ext_getElem (by simp [clientSums]; omega) ?_
  intro i inside _
  have bound : 4 + i < tokens.length := by
    simp only [clientSums, List.length_dropLast, List.length_map, List.length_drop] at inside
    omega
  simp [clientSums, cmdArgv, List.getElem?_eq_getElem bound]

theorem serverSums_eq : serverSums env =
    (List.range (min (cmdTokenizeString2 env.fsLoadedPakPureChecksums false).length 1024)).map fun i =>
      number (cmdArgv (cmdTokenizeString2 env.fsLoadedPakPureChecksums false) i) := by
  refine List.ext_getElem (by simp [serverSums]; omega) ?_
  intro i inside _
  have bound : i < (cmdTokenizeString2 env.fsLoadedPakPureChecksums false).length := by
    simp only [serverSums, List.length_map, List.length_take] at inside
    omega
  simp [serverSums, cmdArgv, List.getElem?_eq_getElem bound]

section Arrays
variable {array other : ChkSums} {values others : ℕ → Int32} {n m : ℕ}

theorem allDiffer_spec (filled : ∀ i < n, array[i]? = some (values i)) :
    ∃ good, allDiffer array n = some good ∧ (good = true ↔ ((List.range n).map values).Nodup) := by
  have inner (i : ℕ) (inside : i < 0 + n) : ∃ good, throughout (fun j =>
        if i = j then some true
        else do
          let x ← array[i]?
          let y ← array[j]?
          return x ≠ y) 0 n = some good ∧ (good = true ↔ ∀ j, 0 ≤ j → j < 0 + n → i = j ∨ values i ≠ values j) := by
    refine throughout_spec ?_
    intro j bound
    by_cases same : i = j
    · exact ⟨true, if_pos same, by simp [same]⟩
    · refine ⟨decide (values i ≠ values j), ?_, by simp [same]⟩
      rw [if_neg same, filled i (by omega), filled j (by omega)]
      rfl
  obtain ⟨good, ran, means⟩ := throughout_spec inner
  refine ⟨good, ran, ?_⟩
  rw [means, List.nodup_map_iff_inj_on List.nodup_range]
  simp only [List.mem_range, Nat.zero_le, forall_const, Nat.zero_add]
  refine forall₂_congr ?_
  intro i _
  refine forall₂_congr ?_
  intro j _
  tauto

theorem allKnown_spec (filled : ∀ i < n, array[i]? = some (values i)) (filled' : ∀ j < m, other[j]? = some (others j)) :
    ∃ good, allKnown array other n m = some good ∧
      (good = true ↔ ∀ sum ∈ (List.range n).map values, sum ∈ (List.range m).map others) := by
  have outer (i : ℕ) (inside : i < 0 + n) : ∃ good, (do
        let missing ← throughout (fun j => do
          let x ← array[i]?
          let y ← other[j]?
          return x ≠ y) 0 m
        return !missing) = some good ∧ (good = true ↔ values i ∈ (List.range m).map others) := by
    have inner (j : ℕ) (bound : j < 0 + m) : ∃ good, (do
        let x ← array[i]?
        let y ← other[j]?
        return x ≠ y : Option Bool) = some good ∧ (good = true ↔ values i ≠ others j) := by
      refine ⟨decide (values i ≠ others j), ?_, by simp⟩
      rw [filled i (by omega), filled' j (by omega)]
      rfl
    obtain ⟨missing, ran, means⟩ := throughout_spec inner
    refine ⟨!missing, (congrArg (Option.bind · _) ran).trans rfl, ?_⟩
    rw [Bool.not_eq_true', ← Bool.not_eq_true, means, List.mem_map]
    simp only [List.mem_range, Nat.zero_le, forall_const, Nat.zero_add, not_forall, not_not]
    constructor
    · rintro ⟨j, bound, same⟩
      exact ⟨j, bound, same.symm⟩
    · rintro ⟨j, bound, same⟩
      exact ⟨j, bound, same.symm⟩
  obtain ⟨good, ran, means⟩ := throughout_spec outer
  refine ⟨good, ran, ?_⟩
  rw [means, List.forall_mem_map]
  simp only [List.mem_range, Nat.zero_le, forall_const, Nat.zero_add]

theorem sumUp_eq (filled : ∀ i < n, array[i]? = some (values i)) (feed : Int32) :
    sumUp array n feed = some (((List.range n).map values).foldl (· ^^^ ·) feed) := by
  have turn (i : ℕ) (sum : Int32) (inside : i < 0 + n)
      (counted : sum = ((List.range i).map values).foldl (· ^^^ ·) feed) :
      ∃ next, (do
        let x ← array[i]?
        return sum ^^^ x) = some next ∧ next = ((List.range (i + 1)).map values).foldl (· ^^^ ·) feed := by
    refine ⟨sum ^^^ values i, ?_, ?_⟩
    · rw [filled i (by omega)]
      rfl
    · rw [List.range_succ, List.map_append, List.foldl_append, ← counted]
      rfl
  obtain ⟨result, ran, counted⟩ := each_spec _ turn (rfl : feed = _)
  rw [sumUp, ran, counted, Nat.zero_add]

end Arrays

theorem checksumsGood_iff (tokens : List CString) (enough : 6 ≤ tokens.length) :
    checksumsGood env tokens = true ↔ (clientSums tokens).Nodup ∧ (∀ sum ∈ clientSums tokens, sum ∈ serverSums env) ∧
      (clientSums tokens).foldl (· ^^^ ·) env.checksumFeed ^^^ Int32.ofNat (clientSums tokens).length =
        number (tokens.getLastD []) := by
  have last : ((tokens.drop 4).map number).getLastD 0 = number (tokens.getLastD []) := by
    have inside : tokens.length - 1 < tokens.length := by omega
    have place : 4 + (tokens.length - 4 - 1) = tokens.length - 1 := by omega
    simp [List.getLastD_eq_getLast?, List.getLast?_eq_getElem?, place, List.getElem?_eq_getElem inside]
  simp only [checksumsGood, Bool.and_eq_true, decide_eq_true_eq, List.all_eq_true, List.contains_iff_mem, last, and_assoc]
  rfl

section Decided
variable {env : Env} {tokens : List CString} {nChkSum1 nChkSum2 : Int32} (nClientChkSum nServerChkSum : ChkSums)

theorem checkPaks_of_short (short : tokens.length < 6) :
    checkPaks env tokens nChkSum1 nChkSum2 nClientChkSum nServerChkSum = some (false, tokens) := by
  rw [checkPaks]
  exact if_pos short

theorem checkPaks_of_not_starts (enough : 6 ≤ tokens.length) (other : startsWith tokens nChkSum1 nChkSum2 = false) :
    checkPaks env tokens nChkSum1 nChkSum2 nClientChkSum nServerChkSum = some (false, tokens) := by
  unfold checkPaks
  extract_lets nClientPaks
  rw [if_neg (Nat.not_lt.mpr enough)]
  split
  · rfl
  split
  · rfl
  split
  · rfl
  · exfalso
    simp only [startsWith] at other
    simp_all

/-- Both arrays are indexed inside of their bounds, and the loops decide the check. -/
theorem checkPaks_of_starts (few : tokens.length ≤ maxStringTokens) (enough : 6 ≤ tokens.length)
    (starts : startsWith tokens nChkSum1 nChkSum2 = true) :
    ∃ buffer, checkPaks env tokens nChkSum1 nChkSum2 nClientChkSum nServerChkSum =
      some (checksumsGood env tokens, buffer) := by
  simp only [startsWith, Bool.and_eq_true, decide_eq_true_eq] at starts
  obtain ⟨⟨⟨⟨plain, cgame⟩, plain'⟩, ui⟩, delimiter⟩ := starts
  have length_le : tokens.length ≤ 1024 := few
  unfold checkPaks
  extract_lets nClientPaks nCurArg i number' buffer nServerPaks
  rw [if_neg (Nat.not_lt.mpr enough), if_neg (not_or.mpr ⟨plain, not_not.mpr cgame⟩),
    if_neg (not_or.mpr ⟨plain', not_not.mpr ui⟩), if_neg (not_not.mpr delimiter)]
  obtain ⟨client, stored, filled⟩ := fill_spec nClientChkSum (fun i => number (cmdArgv tokens (nCurArg + i)))
    (by omega : i ≤ 1024)
  have fewer : number' = tokens.length - 5 := by omega
  have client_filled (j : ℕ) (inside : j < number') : client[j]? = some (number (cmdArgv tokens (4 + j))) :=
    filled j (by omega)
  have sums : (List.range number').map (fun j => number (cmdArgv tokens (4 + j))) = clientSums tokens := by
    rw [fewer, clientSums_eq]
  have last : client[number']? = some (number (tokens.getLastD [])) := by
    rw [filled number' (by omega)]
    have place : nCurArg + number' = tokens.length - 1 := by omega
    have inside : tokens.length - 1 < tokens.length := by omega
    simp [place, cmdArgv, List.getLastD_eq_getLast?, List.getLast?_eq_getElem?, List.getElem?_eq_getElem inside]
  obtain ⟨different, differs, nodup⟩ := allDiffer_spec client_filled
  have good := checksumsGood_iff env tokens enough
  rw [sums] at nodup
  rw [stored, Option.bind_eq_bind, Option.bind_some, differs, Option.bind_eq_bind, Option.bind_some]
  cases different with
  | false =>
    have bad : checksumsGood env tokens = false := by
      rw [← Bool.not_eq_true, good]
      exact fun all => Bool.false_ne_true (nodup.mpr all.1)
    exact ⟨tokens, by rw [bad]; rfl⟩
  | true =>
    obtain ⟨server, stored', server_filled⟩ := fill_spec nServerChkSum (fun i => number (cmdArgv buffer i))
      (Nat.min_le_right _ _ : nServerPaks ≤ 1024)
    obtain ⟨known, knows, all⟩ := allKnown_spec client_filled server_filled
    rw [sums, ← serverSums_eq] at all
    refine ⟨buffer, ?_⟩
    rw [if_neg (by decide), stored', Option.bind_eq_bind, Option.bind_some, knows, Option.bind_some]
    cases known with
    | false =>
      have bad : checksumsGood env tokens = false := by
        rw [← Bool.not_eq_true, good]
        exact fun everything => Bool.false_ne_true (all.mpr everything.2.1)
      rw [bad]
      rfl
    | true =>
      have counted : (clientSums tokens).length = number' := by rw [← sums, List.length_map, List.length_range]
      rw [if_neg (by decide), sumUp_eq client_filled, Option.bind_some, last, Option.bind_some, sums]
      refine congrArg (fun good => some (good, buffer)) ?_
      rw [Bool.eq_iff_iff, decide_eq_true_eq, good, counted]
      exact ⟨fun same => ⟨nodup.mp rfl, all.mp rfl, same⟩, fun everything => everything.2.2⟩

end Decided

theorem checkPaks_spec {tokens : List CString} (few : tokens.length ≤ maxStringTokens) (nChkSum1 nChkSum2 : Int32)
    (nClientChkSum nServerChkSum : ChkSums) :
    ∃ buffer, checkPaks env tokens nChkSum1 nChkSum2 nClientChkSum nServerChkSum =
      some (decide (6 ≤ tokens.length) && startsWith tokens nChkSum1 nChkSum2 && checksumsGood env tokens, buffer) := by
  by_cases enough : 6 ≤ tokens.length
  · rw [decide_eq_true enough, Bool.true_and]
    cases starts : startsWith tokens nChkSum1 nChkSum2 with
    | false => exact ⟨tokens, checkPaks_of_not_starts nClientChkSum nServerChkSum enough starts⟩
    | true => exact checkPaks_of_starts nClientChkSum nServerChkSum few enough starts
  · rw [decide_eq_false enough]
    exact ⟨tokens, checkPaks_of_short nClientChkSum nServerChkSum (Nat.not_le.mp enough)⟩

theorem compareSums_spec {tokens : List CString} (few : tokens.length ≤ maxStringTokens)
    (nClientChkSum nServerChkSum : ChkSums) :
    ∃ buffer, compareSums env tokens nClientChkSum nServerChkSum = some (paksGood env tokens, buffer) := by
  rw [compareSums, paksGood, ← cgameFile, ← uiFile]
  cases env.fsFileIsInPak (cgameFile env) with
  | none => exact ⟨tokens, rfl⟩
  | some nChkSum1 =>
    cases env.fsFileIsInPak (uiFile env) with
    | none => exact ⟨tokens, rfl⟩
    | some nChkSum2 => exact checkPaks_spec env few nChkSum1 nChkSum2 nClientChkSum nServerChkSum

/-- The loops and the arrays make no difference. -/
theorem verifyPaks_spec {tokens : List CString} (few : tokens.length ≤ maxStringTokens)
    (nClientChkSum nServerChkSum : ChkSums) (work : Work) :
    ∃ buffer, verifyPaks env tokens nClientChkSum nServerChkSum work =
      some (proxySvVerifyPaksF env tokens work, buffer) := by
  rw [verifyPaks, proxySvVerifyPaksF]
  by_cases pure : env.svPure = true
  · obtain ⟨buffer, compared⟩ := compareSums_spec env few nClientChkSum nServerChkSum
    refine ⟨buffer, ?_⟩
    rw [if_pos pure, if_pos pure, compared, Option.bind_eq_bind, Option.bind_some]
    cases paksGood env tokens with
    | false => rfl
    | true => rfl
  · exact ⟨tokens, by rw [if_neg pure, if_neg pure]⟩

/-! ## When a client is pure -/

/-- What a `cp` command has to say to a server with these checksums. -/
structure Authentic (tokens : List CString) (nChkSum1 nChkSum2 checksumFeed : Int32) (nServerChkSum : List Int32) :
    Prop where
  enough : 6 ≤ tokens.length
  cgame : (cmdArgv tokens 1).head? ≠ some '@' ∧ number (cmdArgv tokens 1) = nChkSum1
  ui : (cmdArgv tokens 2).head? ≠ some '@' ∧ number (cmdArgv tokens 2) = nChkSum2
  delimiter : (cmdArgv tokens 3).head? = some '@'
  different : (clientSums tokens).Nodup
  known : ∀ sum ∈ clientSums tokens, sum ∈ nServerChkSum
  counted : (clientSums tokens).foldl (· ^^^ ·) checksumFeed ^^^ Int32.ofNat (clientSums tokens).length =
    number (tokens.getLastD [])

theorem paksGood_iff {tokens : List CString} {nChkSum1 nChkSum2 : Int32}
    (cgame : env.fsFileIsInPak (cgameFile env) = some nChkSum1) (ui : env.fsFileIsInPak (uiFile env) = some nChkSum2) :
    paksGood env tokens = true ↔ Authentic tokens nChkSum1 nChkSum2 env.checksumFeed (serverSums env) := by
  rw [paksGood, ← cgameFile, ← uiFile, cgame, ui]
  simp only [startsWith, Bool.and_eq_true, decide_eq_true_eq]
  constructor
  · rintro ⟨⟨enough, ⟨⟨⟨plain, same⟩, plain'⟩, same'⟩, delimiter⟩, good⟩
    obtain ⟨different, known, counted⟩ := (checksumsGood_iff env tokens enough).mp good
    exact ⟨enough, ⟨plain, same⟩, ⟨plain', same'⟩, delimiter, different, known, counted⟩
  · rintro ⟨enough, ⟨plain, same⟩, ⟨plain', same'⟩, delimiter, different, known, counted⟩
    exact ⟨⟨enough, ⟨⟨⟨plain, same⟩, plain'⟩, same'⟩, delimiter⟩,
      (checksumsGood_iff env tokens enough).mpr ⟨different, known, counted⟩⟩

theorem serverSums_of_fits {sums : List Int32} (listed : env.fsLoadedPakPureChecksums = sumsText sums)
    (fits : (sumsText sums).length < bigInfoString) : serverSums env = sums.take 1024 := by
  rw [serverSums, listed, List.map_take, map_number_sumsText fits, List.take_take]
  rfl

theorem dropped_of_bad {tokens : List CString} (pure : env.svPure = true) (bad : ¬ paksGood env tokens = true) (work : Work) :
    (proxySvVerifyPaksF env tokens work).calls = work.calls ++ [.svSendClientSnapshot,
        .svDropClient "Unpure client detected. Invalid .PK3 files referenced!".toList] ∧
      (proxySvVerifyPaksF env tokens work).cl = env.svDropClient (env.svSendClientSnapshot
          { work.cl with pureAuthentic := 0, nextSnapshotTime := -1, state := .csActive })
        "Unpure client detected. Invalid .PK3 files referenced!".toList := by
  rw [proxySvVerifyPaksF, if_pos pure, if_neg bad]
  exact ⟨by simp [Work.log, Work.dropClient], rfl⟩

/-- The arrays are indexed inside of their bounds, and the client is authentic exactly if it names the checksums that
the server reads from its list; else it is dropped. A list whose text fits in the copy that is tokenized is read up to
its first 1024 checksums. -/
theorem verifyPaks_iff {tokens : List CString} (few : tokens.length ≤ maxStringTokens) (pure : env.svPure = true)
    {nChkSum1 nChkSum2 : Int32} (cgame : env.fsFileIsInPak (cgameFile env) = some nChkSum1)
    (ui : env.fsFileIsInPak (uiFile env) = some nChkSum2) (nClientChkSum nServerChkSum : ChkSums) (work : Work) :
    (∃ after buffer, verifyPaks env tokens nClientChkSum nServerChkSum work = some (after, buffer) ∧
      (Authentic tokens nChkSum1 nChkSum2 env.checksumFeed (serverSums env) →
        after = { work with cl := { work.cl with pureAuthentic := 1 } }) ∧
      (¬ Authentic tokens nChkSum1 nChkSum2 env.checksumFeed (serverSums env) →
        after.calls = work.calls ++ [.svSendClientSnapshot,
            .svDropClient "Unpure client detected. Invalid .PK3 files referenced!".toList] ∧
          after.cl = env.svDropClient (env.svSendClientSnapshot
              { work.cl with pureAuthentic := 0, nextSnapshotTime := -1, state := .csActive })
            "Unpure client detected. Invalid .PK3 files referenced!".toList)) ∧
      ∀ sums, env.fsLoadedPakPureChecksums = sumsText sums → (sumsText sums).length < bigInfoString →
        serverSums env = sums.take 1024 := by
  obtain ⟨buffer, ran⟩ := verifyPaks_spec env few nClientChkSum nServerChkSum work
  refine ⟨⟨_, buffer, ran, ?_, ?_⟩, fun sums listed fits => serverSums_of_fits env listed fits⟩
  · intro authentic
    rw [proxySvVerifyPaksF, if_pos pure, if_pos ((paksGood_iff env cgame ui).mpr authentic)]
  · intro foreign
    exact dropped_of_bad env pure (fun good => foreign ((paksGood_iff env cgame ui).mp good)) work

def sampleEnv : Env :=
  { ActiveClients.sampleEnv with
    fsFileIsInPak := fun file => if file = "cgamex86.dll".toList then some 5 else some 6
    fsLoadedPakPureChecksums := sumsText [5, 6, 7] }

def sampleWork : Work := ⟨⟨ClientMessage.sampleClient, ActiveClients.sampleRest⟩, []⟩

def sampleArray : ChkSums := Vector.replicate 1024 (-1)

/-- A client with the pak 7 of the server. -/
def sampleTokens : List CString := ["cp".toList, "5".toList, "6".toList, "@".toList, "7".toList, "6".toList]

/-- A client with a pak of its own. -/
def foreignTokens : List CString := ["cp".toList, "5".toList, "6".toList, "@".toList, "8".toList, "9".toList]

theorem sampleTokens_authentic {nServerChkSum : List Int32} (known : 7 ∈ nServerChkSum) :
    Authentic sampleTokens 5 6 0 nServerChkSum := by
  refine ⟨by decide, by decide, by decide, by decide, by decide, ?_, by decide⟩
  have named : clientSums sampleTokens = [7] := by decide
  rw [named]
  exact List.forall_mem_singleton.mpr known

theorem verifyPaks_iff_sample :
    (∃ buffer, verifyPaks sampleEnv sampleTokens sampleArray sampleArray sampleWork =
        some ({ sampleWork with cl := { sampleWork.cl with pureAuthentic := 1 } }, buffer)) ∧
      ∃ after buffer, verifyPaks sampleEnv foreignTokens sampleArray sampleArray sampleWork = some (after, buffer) ∧
        after.cl.pureAuthentic = 0 ∧ after.cl.state = .csZombie := by
  have pure : sampleEnv.svPure = true := rfl
  have cgame : sampleEnv.fsFileIsInPak (cgameFile sampleEnv) = some 5 := by decide
  have ui : sampleEnv.fsFileIsInPak (uiFile sampleEnv) = some 6 := by decide
  obtain ⟨⟨after, buffer, ran, authentic, _⟩, listed⟩ :=
    verifyPaks_iff sampleEnv (by decide : sampleTokens.length ≤ _) pure cgame ui sampleArray sampleArray sampleWork
  obtain ⟨⟨after', buffer', ran', _, foreign⟩, _⟩ :=
    verifyPaks_iff sampleEnv (by decide : foreignTokens.length ≤ _) pure cgame ui sampleArray sampleArray sampleWork
  have server : serverSums sampleEnv = [5, 6, 7] := listed [5, 6, 7] rfl (by decide)
  constructor
  · refine ⟨buffer, ?_⟩
    rw [ran, authentic (sampleTokens_authentic (by rw [server]; decide))]
  · have unknown : ¬ Authentic foreignTokens 5 6 sampleEnv.checksumFeed (serverSums sampleEnv) := by
      intro authentic
      have known := authentic.known 8 (by decide)
      rw [server] at known
      exact absurd known (by decide)
    refine ⟨after', buffer', ran', ?_⟩
    rw [(foreign unknown).2]
    exact ⟨rfl, rfl⟩

/-! ## A list that is too long to be read -/

def manySums : List Int32 := List.replicate 683 (-2147483648) ++ [7]

def manyPaksEnv : Env := { sampleEnv with fsLoadedPakPureChecksums := sumsText manySums }

/-- The copy ends in the middle of a checksum. -/
theorem copied_manySums : qStrncpyz (sumsText manySums) bigInfoString =
    sumsText (List.replicate 682 (-2147483648)) ++ "-214748".toList := by
  have length := length_sumsText_replicate 682 (-2147483648)
  have figures : (sumText (-2147483648)).length = 11 := by decide
  rw [figures] at length
  have split : manySums = List.replicate 682 (-2147483648) ++ [-2147483648, 7] := by
    rw [manySums, List.replicate_succ', List.append_assoc]
    rfl
  have place : bigInfoString - 1 = (sumsText (List.replicate 682 (-2147483648))).length + 7 := by rw [length]; rfl
  rw [qStrncpyz, place, split, sumsText_append, List.take_length_add_append]
  rfl

theorem serverSums_manyPaksEnv : serverSums manyPaksEnv = List.replicate 682 (-2147483648) ++ [-214748] := by
  have listed : manyPaksEnv.fsLoadedPakPureChecksums = sumsText manySums := rfl
  have rest : tokensFrom false 342 "-214748".toList = ["-214748".toList] := by decide +kernel
  have count : (List.replicate 682 (-2147483648 : Int32)).length = 682 := List.length_replicate
  have fits : ((List.replicate 682 (-2147483648)).map sumText).length ≤ maxStringTokens := by
    rw [List.length_map, count]
    decide
  have fits' : ((List.replicate 682 (-2147483648)).map sumText ++ ["-214748".toList]).length ≤ 1024 := by
    rw [List.length_append, List.length_map, count]
    decide
  rw [serverSums, cmdTokenizeString2, listed, copied_manySums, tokensFrom_sumsText, count,
    show maxStringTokens - 682 = 342 from rfl, rest, List.take_of_length_le fits, List.take_of_length_le fits',
    List.map_append, map_number_sumText]
  rfl

/-- The client names a pak that the server has listed, but has not read. -/
theorem verifyPaks_long_list :
    manyPaksEnv.fsLoadedPakPureChecksums = sumsText manySums ∧ manyPaksEnv.svPure = true ∧
      manyPaksEnv.fsFileIsInPak (cgameFile manyPaksEnv) = some 5 ∧ manyPaksEnv.fsFileIsInPak (uiFile manyPaksEnv) = some 6 ∧
      Authentic sampleTokens 5 6 manyPaksEnv.checksumFeed (manySums.take 1024) ∧
      ∃ after buffer, verifyPaks manyPaksEnv sampleTokens sampleArray sampleArray sampleWork = some (after, buffer) ∧
        after.cl.pureAuthentic = 0 ∧ after.cl.state = .csZombie := by
  have pure : manyPaksEnv.svPure = true := rfl
  have cgame : manyPaksEnv.fsFileIsInPak (cgameFile manyPaksEnv) = some 5 := by decide
  have ui : manyPaksEnv.fsFileIsInPak (uiFile manyPaksEnv) = some 6 := by decide
  have count : manySums.length = 684 := by rw [manySums, List.length_append, List.length_replicate]; rfl
  have listed : 7 ∈ manySums.take 1024 := by
    rw [List.take_of_length_le (by rw [count]; decide)]
    exact List.mem_append_right _ List.mem_cons_self
  have unread : 7 ∉ serverSums manyPaksEnv := by
    rw [serverSums_manyPaksEnv, List.mem_append, List.mem_replicate]
    decide
  have bad : ¬ paksGood manyPaksEnv sampleTokens = true := by
    intro good
    exact unread (((paksGood_iff manyPaksEnv cgame ui).mp good).known 7 (by decide))
  obtain ⟨buffer, ran⟩ :=
    verifyPaks_spec manyPaksEnv (by decide : sampleTokens.length ≤ _) sampleArray sampleArray sampleWork
  refine ⟨rfl, pure, cgame, ui, sampleTokens_authentic listed, _, buffer, ran, ?_⟩
  rw [(dropped_of_bad manyPaksEnv pure bad sampleWork).2]
  exact ⟨rfl, rfl⟩

end YbeProxy.VerifyPaks
