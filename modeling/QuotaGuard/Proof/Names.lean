import QuotaGuard.Proof.Rollup

/-!
# Names decode to what they encode

`script_keys` and check.lua build the names of an admission, the rollup job builds the names of its
counters and of its lock, and it reads key ids and months back from the names that a scan returns. The
resource of a bucket or a window may contain the separator; only names of other families do.
-/

namespace QuotaGuard

/-- A text of a month that check.lua forms. -/
structure MonthStr where
  val : String
  formed : ∃ t : Time, t.monthStr = val

theorem MonthStr.ext {m m' : MonthStr} (h : m.val = m'.val) : m = m' := by
  cases m
  cases m'
  cases h
  rfl

theorem MonthStr.sep_notMem (m : MonthStr) : ':' ∉ m.val.toList := by
  obtain ⟨t, hformed⟩ := m.formed
  rw [← hformed]
  exact t.sep_notMem_monthStr

/-- What a key of Redis is for. -/
inductive RedisName where
  | bucket (key : KeyId) (resource : Resource)
  | window (key : KeyId) (resource : Resource)
  | quota (key : KeyId) (month : MonthStr)
  | flag (key : KeyId) (month : MonthStr)
  | lock

namespace RedisName

def name : RedisName → String
  | .bucket key resource => Family.bucket.name key resource.val
  | .window key resource => Family.window.name key resource.val
  | .quota key month => Family.quota.name key month.val
  | .flag key month => Family.flag.name key month.val
  | .lock => lockKey

/-- The parts of the name of an admission key. -/
def parts : RedisName → Option (Family × KeyId × String)
  | .bucket key resource => some (.bucket, key, resource.val)
  | .window key resource => some (.window, key, resource.val)
  | .quota key month => some (.quota, key, month.val)
  | .flag key month => some (.flag, key, month.val)
  | .lock => none

variable {n n' : RedisName}

theorem name_eq (n : RedisName) :
    n.name = n.parts.elim lockKey fun parts => parts.1.name parts.2.1 parts.2.2 := by
  cases n <;> rfl

theorem parts_injective (h : n.parts = n'.parts) : n = n' := by
  cases n <;> cases n' <;>
    simp only [parts, Option.some.injEq, Prod.mk.injEq, reduceCtorEq, false_and, true_and] at h
  case bucket.bucket => rw [h.1, Resource.ext h.2]
  case window.window => rw [h.1, Resource.ext h.2]
  case quota.quota => rw [h.1, MonthStr.ext h.2]
  case flag.flag => rw [h.1, MonthStr.ext h.2]
  case lock.lock => rfl

/-- Keys of Redis that are for different things have different names. -/
theorem name_injective : Function.Injective name := by
  intro n n' h
  apply parts_injective
  rw [name_eq, name_eq] at h
  cases hparts : n.parts with
  | none =>
      cases hparts' : n'.parts with
      | none => rfl
      | some parts' =>
          rw [hparts, hparts'] at h
          exact absurd h.symm (lockKey_ne _ _)
  | some parts =>
      cases hparts' : n'.parts with
      | none =>
          rw [hparts, hparts'] at h
          exact absurd h (lockKey_ne _ _)
      | some parts' =>
          rw [hparts, hparts'] at h
          obtain ⟨hfamily, hkey, hrest⟩ := Family.name_inj h
          exact congrArg some (Prod.ext hfamily (Prod.ext hkey hrest))

/-- The names that start with the tag of a family are those of the family. -/
theorem tag_prefix_iff (f : Family) : (∃ rest, n.name = f.tag ++ rest) ↔
    ∃ key what, n.parts = some (f, key, what) := by
  rw [name_eq]
  cases hparts : n.parts with
  | none =>
      refine iff_of_false ?_ (by simp)
      rintro ⟨rest, h⟩
      exact lockKey_ne f rest h.symm
  | some parts =>
      obtain ⟨g, key, what⟩ := parts
      constructor
      · rintro ⟨rest, h⟩
        obtain ⟨rfl, -⟩ := Family.tag_append_inj h
        exact ⟨key, what, rfl⟩
      · rintro ⟨key', what', heq⟩
        cases heq
        exact ⟨_, rfl⟩

theorem quota_prefix_iff :
    (∃ rest, n.name = "qg:q:" ++ rest) ↔ ∃ key month, n = .quota key month := by
  refine (tag_prefix_iff .quota).trans ?_
  cases n <;> simp [parts]

theorem flag_prefix_iff :
    (∃ rest, n.name = "qg:f:" ++ rest) ↔ ∃ key month, n = .flag key month := by
  refine (tag_prefix_iff .flag).trans ?_
  cases n <;> simp [parts]

theorem parseQuotaKey_name (key : KeyId) (month : MonthStr) :
    parseQuotaKey (quota key month).name = some (key.val, month.val) :=
  parseKey_join (by decide) key.sep_notMem month.sep_notMem

theorem parseFlagKey_name (key : KeyId) (month : MonthStr) :
    parseFlagKey (flag key month).name = some (key.val, month.val) :=
  parseKey_join (by decide) key.sep_notMem month.sep_notMem

/-- No other name is read as that of a counter. -/
theorem parseQuotaKey_eq_some_iff {keyId text : String} :
    parseQuotaKey n.name = some (keyId, text) ↔
      ∃ key month, n = .quota key month ∧ key.val = keyId ∧ month.val = text := by
  constructor
  · intro h
    obtain ⟨key, month, rfl⟩ := quota_prefix_iff.mp ⟨_, parseKey_eq_some h⟩
    rw [parseQuotaKey_name, Option.some.injEq, Prod.mk.injEq] at h
    exact ⟨key, month, rfl, h⟩
  · rintro ⟨key, month, rfl, rfl, rfl⟩
    exact parseQuotaKey_name key month

/-- The names as check.lua makes them of the `KEYS` of `script_keys`. -/
theorem quota_name_eq (key : KeyId) (resource : Resource) (month : MonthStr) :
    (quota key month).name = (scriptKeys key resource).quotaKeyPrefix ++ month.val := by
  simp only [name, Family.name, Family.tag, scriptKeys, String.append_assoc]

theorem flag_name_eq (key : KeyId) (resource : Resource) (month : MonthStr) :
    (flag key month).name = (scriptKeys key resource).flagKeyPrefix ++ month.val := by
  simp only [name, Family.name, Family.tag, scriptKeys, String.append_assoc]

end RedisName

/-- `restore_from_rollup` runs the script on the counter of its key and month. -/
theorem restoreFromRollup_eq [Arithmetic] {registry : Registry} {scripts : List String}
    {month : String} {monthEnd : Int} (hscripts : registry.scripts = some scripts) (hrestore : "restore" ∈ scripts)
    (hend : monthEndOfText month = some monthEnd) (key : KeyId) (now : Time) (floor : Int)
    (redis : Keyspace) :
    restoreFromRollup registry now key.val month floor redis =
      (if (restore (quotaName key month) floor monthEnd now redis).1 = .ok floor then 1 else 0,
        (restore (quotaName key month) floor monthEnd now redis).2) := by
  have hname : "qg:q:" ++ (key.val ++ ":" ++ month) = quotaName key month := rfl
  unfold restoreFromRollup
  rw [hend, hscripts, hname]
  simp only [if_pos hrestore]
  generalize restore (quotaName key month) floor monthEnd now redis = out
  obtain ⟨result, redis'⟩ := out
  cases result with
  | ok result => simp
  | error e => simp

/-- **Names decode to what they encode.** The names that are made of the `KEYS` are read back, and
`restore_from_rollup` makes the same name of a counter again; no two names are the same, and only those
of counters and of flags start with what the scans look for. So whatever admission keys Redis has, a scan
for counters returns names of counters, and each is read as its own key id and month. -/
theorem names_decode :
    (∀ (key : KeyId) (resource : Resource) (month : MonthStr),
      (RedisName.bucket key resource).name = (scriptKeys key resource).bucket ∧
      (RedisName.window key resource).name = (scriptKeys key resource).window ∧
      (RedisName.quota key month).name = (scriptKeys key resource).quotaKeyPrefix ++ month.val ∧
      (RedisName.flag key month).name = (scriptKeys key resource).flagKeyPrefix ++ month.val ∧
      parseQuotaKey ((scriptKeys key resource).quotaKeyPrefix ++ month.val) =
        some (key.val, month.val) ∧
      parseFlagKey ((scriptKeys key resource).flagKeyPrefix ++ month.val) =
        some (key.val, month.val) ∧
      ∀ (registry : Registry) scripts monthEnd, registry.scripts = some scripts →
        "restore" ∈ scripts → monthEndOfText month.val = some monthEnd → ∀ now floor redis,
          (restoreFromRollup registry now key.val month.val floor redis).2 =
            (restore ((scriptKeys key resource).quotaKeyPrefix ++ month.val) floor monthEnd now
              redis).2) ∧
    Function.Injective RedisName.name ∧
    (∀ n : RedisName,
      ((∃ rest, n.name = "qg:q:" ++ rest) ↔ ∃ key month, n = .quota key month) ∧
      ((∃ rest, n.name = "qg:f:" ++ rest) ↔ ∃ key month, n = .flag key month) ∧
      ∀ keyId text, parseQuotaKey n.name = some (keyId, text) ↔
        ∃ key month, n = .quota key month ∧ key.val = keyId ∧ month.val = text) ∧
    ∀ redis names, IsScan "qg:q:" redis names →
      (∀ name, redis name ≠ none → ∃ n : RedisName, n.name = name) →
      ∀ name ∈ names, ∃ key month, name = (RedisName.quota key month).name ∧
        parseQuotaKey name = some (key.val, month.val) := by
  refine ⟨fun key resource month => ?_, RedisName.name_injective,
    fun n => ⟨RedisName.quota_prefix_iff, RedisName.flag_prefix_iff,
      fun _ _ => RedisName.parseQuotaKey_eq_some_iff⟩, fun redis names hscan hnames name hmem => ?_⟩
  · have hquota := RedisName.quota_name_eq key resource month
    have hflag := RedisName.flag_name_eq key resource month
    refine ⟨rfl, rfl, hquota, hflag, hquota ▸ RedisName.parseQuotaKey_name key month,
      hflag ▸ RedisName.parseFlagKey_name key month, ?_⟩
    intro registry scripts monthEnd hscripts hrestore hend now floor redis
    rw [restoreFromRollup_eq hscripts hrestore hend, ← hquota]
    rfl
  · obtain ⟨hpattern, hpresent⟩ := (hscan name).mp hmem
    obtain ⟨n, rfl⟩ := hnames name hpresent
    obtain ⟨key, month, rfl⟩ := RedisName.quota_prefix_iff.mp hpattern
    exact ⟨key, month, rfl, RedisName.parseQuotaKey_name key month⟩

def sampleMonth : MonthStr := ⟨"1970-01", sampleTime 0, by decide +kernel⟩

def separatedResource : Resource :=
  ⟨"q:x:1970-01", by decide, by decide, List.all_eq_true.mp (by decide)⟩

/-- A bucket whose resource has separators, and a counter: the scan returns the counter. -/
theorem names_decode_sample :
    let redis := Function.update
      (Function.update Keyspace.empty (RedisName.bucket sampleKey separatedResource).name
        (some ⟨.hash (some 0) (some 0), none⟩))
      (RedisName.quota sampleKey sampleMonth).name (some ⟨.int 2, none⟩)
    IsScan "qg:q:" redis [(RedisName.quota sampleKey sampleMonth).name] ∧
      ∃ key month, (RedisName.quota sampleKey sampleMonth).name = (RedisName.quota key month).name ∧
        parseQuotaKey (RedisName.quota sampleKey sampleMonth).name = some (key.val, month.val) := by
  intro redis
  have hpresent (name : String) (h : redis name ≠ none) :
      name = (RedisName.quota sampleKey sampleMonth).name ∨
        name = (RedisName.bucket sampleKey separatedResource).name := by
    by_contra hother
    rw [not_or] at hother
    exact h ((Function.update_of_ne hother.1 _ _).trans (Function.update_of_ne hother.2 _ _))
  have hscan : IsScan "qg:q:" redis [(RedisName.quota sampleKey sampleMonth).name] := by
    intro name
    rw [List.mem_singleton]
    constructor
    · rintro rfl
      exact ⟨⟨_, rfl⟩, by simp [redis]⟩
    · rintro ⟨hpattern, h⟩
      rcases hpresent name h with rfl | rfl
      · rfl
      · obtain ⟨key, month, hquota⟩ := RedisName.quota_prefix_iff.mp hpattern
        cases hquota
  refine ⟨hscan, names_decode.2.2.2 redis _ hscan (fun name h => ?_) _ (List.mem_singleton_self _)⟩
  rcases hpresent name h with rfl | rfl
  · exact ⟨_, rfl⟩
  · exact ⟨_, rfl⟩

end QuotaGuard
