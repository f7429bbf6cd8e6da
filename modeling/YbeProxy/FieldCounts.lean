import YbeProxy.SanitizeTwice

/-!
# The fields of a userinfo that is accepted

`Validate` counts the keys that `Info_NextPair` walks, up to the first empty one; `Info_ValueForKey` walks on to the end. Which
of the accepted userinfos hold every field as often as the table of fields says.
-/

namespace YbeProxy.FieldCounts
open YbeProxy.Strings YbeProxy.KeyValueText YbeProxy.Infostrings YbeProxy.Userinfo
open YbeProxy.SanitizeTwice (Pairs namedKeys pairKeys_eq fieldReason_eq_none_iff validate_iff)
open YbeProxy.UserinfoWrites (userinfoOf)

/-- The loop of `Info_ValueForKey` with a key that it does not find: the pairs it compares. -/
def walkedFrom (s : CString) : Pairs :=
  let pkey := s.takeWhile (· ≠ '\\')
  let afterKey := s.dropWhile (· ≠ '\\')
  if afterKey = [] then []
  else
    let value := afterKey.tail.takeWhile (· ≠ '\\')
    let afterValue := afterKey.tail.dropWhile (· ≠ '\\')
    (pkey, value) :: if afterValue = [] then [] else walkedFrom afterValue.tail
termination_by s.length
decreasing_by
  rename_i more _
  exact (List.tail_sublist _).length_le.trans_lt (length_rest_lt '\\' more)

def walked (s : CString) : Pairs := walkedFrom (if s.head? = some '\\' then s.tail else s)

def walkedKeys (userinfo : CString) : List CString := (walked userinfo).map Prod.fst

/-- Each field occurs as often as it must and may. -/
def CountsEvery (userinfo : CString) : Prop :=
  ∀ field ∈ userinfoFields,
    field.minCount ≤ fieldCount (walkedKeys userinfo) field ∧ fieldCount (walkedKeys userinfo) field ≤ field.maxCount

instance (userinfo : CString) : Decidable (CountsEvery userinfo) :=
  inferInstanceAs (Decidable (∀ field ∈ userinfoFields,
    field.minCount ≤ fieldCount (walkedKeys userinfo) field ∧ fieldCount (walkedKeys userinfo) field ≤ field.maxCount))

/-- The keys from the first empty one on. -/
def hiddenKeys (userinfo : CString) : List CString := (walkedKeys userinfo).dropWhile (· ≠ [])

/-- No field behind an empty key, apart from an optional one that does not stand in front of it. -/
def NothingHidden (userinfo : CString) : Prop :=
  ∀ field ∈ userinfoFields, fieldCount (hiddenKeys userinfo) field ≤
    if field.minCount = 0 ∧ fieldCount (pairKeys userinfo) field = 0 then field.maxCount else 0

instance (userinfo : CString) : Decidable (NothingHidden userinfo) :=
  inferInstanceAs (Decidable (∀ field ∈ userinfoFields, fieldCount (hiddenKeys userinfo) field ≤
    if field.minCount = 0 ∧ fieldCount (pairKeys userinfo) field = 0 then field.maxCount else 0))

/-! ## The two walks -/

theorem walkedFrom_skip (s : CString) : walkedFrom (skip '\\' s) = pairs '\\' s := by
  induction s using pairs_induction '\\' with
  | none s empty =>
    have none : (skip '\\' s).dropWhile (· ≠ '\\') = [] := fromSep_eq_nil_iff.mpr empty
    rw [walkedFrom, pairs_of_none empty]
    simp only [none, ↓reduceIte]
  | pair s key value t keyWord valueWord delimited split hypothesis =>
    obtain ⟨word, afterKey, valueIs, afterValue⟩ := words_of_pair keyWord valueWord delimited split
    rw [walkedFrom, pairs_of_split keyWord valueWord delimited split]
    simp only [afterKey, word, List.tail_cons, afterValue, valueIs, reduceCtorEq, ↓reduceIte]
    congr 1
    rcases delimited_iff.mp delimited with rfl | ⟨u, rfl⟩
    · rw [if_pos rfl, pairs_of_none List.not_mem_nil]
    · rw [if_neg (List.cons_ne_nil _ _), ← hypothesis, skip_sep, List.tail_cons]

theorem walked_eq (s : CString) : walked s = pairs '\\' s := by
  rw [walked, skip_eq, walkedFrom_skip]

/-- The value of a key comes from the first of the pairs walked that has it. -/
theorem infoValueForKey_walked (s key : CString) : infoValueForKey s key = lookup (walked s) key := by
  rw [infoValueForKey_eq, walked_eq]

theorem walkedKeys_split (userinfo : CString) : walkedKeys userinfo = pairKeys userinfo ++ hiddenKeys userinfo := by
  rw [hiddenKeys, walkedKeys, walked_eq, pairKeys_eq, namedKeys, List.takeWhile_append_dropWhile]

theorem fieldCount_walkedKeys (userinfo : CString) (field : UserinfoField) :
    fieldCount (walkedKeys userinfo) field =
      fieldCount (pairKeys userinfo) field + fieldCount (hiddenKeys userinfo) field := by
  rw [walkedKeys_split]
  exact List.countP_append

/-! ## Which userinfos are counted -/

theorem userinfoFields_once : ∀ field ∈ userinfoFields, field.minCount ≤ field.maxCount ∧ field.maxCount ≤ 1 := by
  decide

/-- Of the userinfos that `Validate` accepts, exactly those hold every field as often as they should. -/
theorem counts_every_iff {userinfo : CString} (accepted : validate userinfo = none) :
    CountsEvery userinfo ↔ NothingHidden userinfo := by
  have fields := ((validate_iff userinfo).mp accepted).fields
  refine forall₂_congr fun field member => ?_
  obtain ⟨required, few⟩ := (fieldReason_eq_none_iff (pairKeys userinfo) field).mp (fields field member)
  obtain ⟨ordered, once⟩ := userinfoFields_once field member
  rw [fieldCount_walkedKeys]
  by_cases optional : field.minCount = 0 ∧ fieldCount (pairKeys userinfo) field = 0
  · rw [if_pos optional]
    omega
  · rw [if_neg optional]
    have present : fieldCount (pairKeys userinfo) field ≠ 0 := fun missing =>
      optional ⟨Decidable.not_not.mp fun needed => required needed missing, missing⟩
    omega

/-- A password behind an empty key is counted by nobody, and there is only one. -/
theorem counts_every_sample : CountsEvery ((userinfoOf "Bob".toList).text ++ "\\\\v\\password\\x".toList) := by
  -- The texts become lists first: the kernel takes long to decode a literal.
  refine (counts_every_iff ?_).mpr ?_
  · rw [validate, userinfoFields, userinfoOf]
    repeat rw [String.toList_ofList]
    decide +kernel
  · rw [NothingHidden, userinfoFields, userinfoOf]
    repeat rw [String.toList_ofList]
    decide +kernel

/-- A second name and a guid behind an empty key are accepted. -/
theorem second_name_accepted :
    validate ((userinfoOf "Bob".toList).text ++ "\\\\v\\name\\Eve\\cl_guid\\x".toList) = none ∧
      ¬ CountsEvery ((userinfoOf "Bob".toList).text ++ "\\\\v\\name\\Eve\\cl_guid\\x".toList) := by
  rw [validate, CountsEvery, userinfoFields, userinfoOf]
  repeat rw [String.toList_ofList]
  constructor
  · decide +kernel
  · decide +kernel

end YbeProxy.FieldCounts
