import QuotaGuard.Lua.Check

/-!
# Keys, resources and the marshalling of a check

`script_keys` and `script_argv`: how the service names the Redis keys of a check and turns the limits
of a resolved key into the integers the script works on. Every name starts with the tag of its
family; a key id has a fixed length and no separator, so it can be read back from a name whatever the
resource looks like.
-/

namespace QuotaGuard

/-- The characters `secrets.token_hex` produces. -/
def isHex (c : Char) : Bool := c.isDigit || decide ('a' ≤ c ∧ c ≤ 'f')

/-- `generate_key_id`: `k_` and 12 hex characters. -/
structure KeyId where
  val : String
  wf : ∃ hex : List Char, val.toList = 'k' :: '_' :: hex ∧ hex.length = 12 ∧ ∀ c ∈ hex, isHex c
  deriving DecidableEq

/-- `generate_key_id`, from the digits `token_hex` returned. -/
def generateKeyId (hex : List Char) (hlength : hex.length = 12) (hhex : ∀ c ∈ hex, isHex c) :
    KeyId where
  val := "k_" ++ String.ofList hex
  wf := by
    refine ⟨hex, ?_, hlength, hhex⟩
    rw [String.toList_append, String.toList_ofList, String.toList_ofList]
    rfl

/-- The characters `RESOURCE_PATTERN` allows. -/
def isResourceChar (c : Char) : Bool :=
  c.isAlphanum || c = '_' || c = '.' || c = ':' || c = '/' || c = '-'

/-- A resource name, 1 to 128 characters matching `RESOURCE_PATTERN`. -/
structure Resource where
  val : String
  wf : 1 ≤ val.toList.length ∧ val.toList.length ≤ 128 ∧ ∀ c ∈ val.toList, isResourceChar c
  deriving DecidableEq

theorem KeyId.ext {k k' : KeyId} (h : k.val = k'.val) : k = k' := by
  cases k
  cases k'
  cases h
  rfl

theorem Resource.ext {r r' : Resource} (h : r.val = r'.val) : r = r' := by
  cases r
  cases r'
  cases h
  rfl

theorem KeyId.sep_notMem (k : KeyId) : ':' ∉ k.val.toList := by
  obtain ⟨hex, hval, -, hhex⟩ := k.wf
  rw [hval]
  intro hmem
  rcases List.mem_cons.mp hmem with h | hmem
  · cases h
  rcases List.mem_cons.mp hmem with h | hmem
  · cases h
  exact absurd (hhex _ hmem) (by decide)

/-- `script_keys`. -/
def scriptKeys (key : KeyId) (resource : Resource) : Keys where
  bucket := "qg:b:" ++ (key.val ++ ":" ++ resource.val)
  window := "qg:s:" ++ (key.val ++ ":" ++ resource.val)
  quotaKeyPrefix := "qg:q:" ++ (key.val ++ ":")
  flagKeyPrefix := "qg:f:" ++ (key.val ++ ":")

/-- What the check path knows about a key, with overrides already applied. -/
structure ResolvedKey where
  keyId : KeyId
  name : String
  planSlug : String
  revoked : Bool
  burstCapacity : Int
  burstRefillPerSec : Int
  sustainedLimit : Int
  sustainedWindowSeconds : Int
  monthlyQuota : Int
  quotaSoftPct : Int
  redisDownPolicy : String
  deriving DecidableEq

/-- The bounds the plan and key schemas enforce on every write. -/
structure ResolvedKey.WithinBounds (key : ResolvedKey) : Prop where
  burstCapacity : 1 ≤ key.burstCapacity ∧ key.burstCapacity ≤ 1000000
  burstRefillPerSec : 1 ≤ key.burstRefillPerSec ∧ key.burstRefillPerSec ≤ 100000
  sustainedLimit : 1 ≤ key.sustainedLimit ∧ key.sustainedLimit ≤ 1000000
  sustainedWindowSeconds : 1 ≤ key.sustainedWindowSeconds ∧ key.sustainedWindowSeconds ≤ 86400
  monthlyQuota : 1 ≤ key.monthlyQuota ∧ key.monthlyQuota ≤ 1000000000000
  quotaSoftPct : 0 ≤ key.quotaSoftPct ∧ key.quotaSoftPct ≤ 100

theorem ResolvedKey.WithinBounds.rate_pos {key : ResolvedKey} (h : key.WithinBounds) :
    0 < key.burstRefillPerSec * utok :=
  mul_pos (Int.lt_of_lt_of_le Int.one_pos h.burstRefillPerSec.1) utok_pos

/-- `script_argv`. -/
def scriptArgv (key : ResolvedKey) (cost : Int) (requestId : String) : Argv where
  capUtok := key.burstCapacity * utok
  rateUtok := key.burstRefillPerSec * utok
  sustainedLimit := key.sustainedLimit
  windowUs := key.sustainedWindowSeconds * utok
  quotaHard := key.monthlyQuota
  quotaSoft := if key.quotaSoftPct > 0 then key.monthlyQuota * key.quotaSoftPct / 100 else 0
  cost
  requestId

/-! ### The families of names -/

/-- The four families of keys an admission touches. -/
inductive Family where
  | bucket
  | window
  | quota
  | flag
  deriving DecidableEq, Repr

namespace Family

/-- What every name of the family starts with. -/
def tag : Family → String
  | .bucket => "qg:b:"
  | .window => "qg:s:"
  | .quota => "qg:q:"
  | .flag => "qg:f:"

/-- The letter the tags differ in. -/
def letter : Family → Char
  | .bucket => 'b'
  | .window => 's'
  | .quota => 'q'
  | .flag => 'f'

theorem toList_tag (f : Family) : f.tag.toList = ['q', 'g', ':', f.letter, ':'] := by
  cases f <;> exact String.toList_ofList

def kind : Family → Kind
  | .bucket => .hash
  | .window => .zset
  | .quota => .int
  | .flag => .int

/-- Tags have one length and differ, so a name belongs to one family and determines the rest. -/
theorem tag_append_inj {f g : Family} {x y : String} (h : f.tag ++ x = g.tag ++ y) :
    f = g ∧ x = y := by
  have hlist := congrArg String.toList h
  simp only [String.toList_append, toList_tag, List.cons_append, List.nil_append,
    List.cons.injEq, true_and] at hlist
  obtain ⟨hletter, hrest⟩ := hlist
  refine ⟨?_, String.toList_injective hrest⟩
  cases f <;> cases g <;> first | rfl | exact absurd hletter (by decide)

theorem tag_append_ne {f g : Family} (hne : f ≠ g) (x y : String) : f.tag ++ x ≠ g.tag ++ y :=
  fun h => hne (tag_append_inj h).1

/-- The name of a family member: the tag, the key id, and what is limited. -/
def name (f : Family) (key : KeyId) (rest : String) : String := f.tag ++ (key.val ++ ":" ++ rest)

/-- **Names can be read back.** The resource may contain separators; the key id does not. -/
theorem name_inj {f g : Family} {key key' : KeyId} {rest rest' : String}
    (h : f.name key rest = g.name key' rest') : f = g ∧ key = key' ∧ rest = rest' := by
  obtain ⟨hfamily, hafter⟩ := tag_append_inj h
  obtain ⟨hkey, hrest⟩ := Text.append_sep_inj key.sep_notMem key'.sep_notMem hafter
  exact ⟨hfamily, KeyId.ext hkey, hrest⟩

@[simp] theorem name_eq_name {f g : Family} {key key' : KeyId} {rest rest' : String} :
    f.name key rest = g.name key' rest' ↔ f = g ∧ key = key' ∧ rest = rest' := by
  constructor
  · exact name_inj
  · rintro ⟨rfl, rfl, rfl⟩
    rfl

end Family

/-- Every name of a family holds a value of the family's type. -/
def Keyspace.Typed (db : Keyspace) : Prop :=
  ∀ (f : Family) (rest : String), db.Holds (f.tag ++ rest) f.kind

theorem Keyspace.typed_empty : Keyspace.empty.Typed := fun _ _ => Keyspace.Holds.of_none rfl

/-- The loss of keys does not change the type of what is left. -/
theorem Keyspace.Typed.of_loss {db found : Keyspace} (htyped : db.Typed)
    (hloss : db.Loses found) : found.Typed := by
  intro f rest
  rcases hloss (f.tag ++ rest) with hsame | hgone
  · exact (htyped f rest).congr hsame
  · exact Keyspace.Holds.of_none hgone

/-! ### Calls -/

/-- One execution of the script: the key and resource it is for, the clock and the arguments. -/
structure Call where
  key : KeyId
  resource : Resource
  now : Time
  argv : Argv

namespace Call

variable (c : Call)

abbrev bkey : String := (scriptKeys c.key c.resource).bucket

abbrev skey : String := (scriptKeys c.key c.resource).window

abbrev qkey : String := (scriptKeys c.key c.resource).quotaKeyPrefix ++ c.now.monthStr

abbrev fkey : String := (scriptKeys c.key c.resource).flagKeyPrefix ++ c.now.monthStr

def exec [Arithmetic] (c : Call) (db : Keyspace) : Except RedisError Reply × Keyspace :=
  check (scriptKeys c.key c.resource) c.argv c.now db

/-- The call carries the limits of the resolved key, as `script_argv` marshals them. -/
structure MarshalledFor (key : ResolvedKey) (c : Call) : Prop where
  key_eq : c.key = key.keyId
  argv_eq : c.argv = scriptArgv key c.argv.cost c.argv.requestId
  cost_nonneg : 0 ≤ c.argv.cost

theorem bkey_eq : c.bkey = Family.bucket.name c.key c.resource.val := rfl

theorem skey_eq : c.skey = Family.window.name c.key c.resource.val := rfl

theorem qkey_eq : c.qkey = Family.quota.name c.key c.now.monthStr := by
  simp only [qkey, scriptKeys, Family.name, Family.tag, String.append_assoc]

theorem fkey_eq : c.fkey = Family.flag.name c.key c.now.monthStr := by
  simp only [fkey, scriptKeys, Family.name, Family.tag, String.append_assoc]

theorem bkey_ne_skey : c.bkey ≠ c.skey := by simp [bkey_eq, skey_eq]

theorem bkey_ne_qkey : c.bkey ≠ c.qkey := by simp [bkey_eq, qkey_eq]

theorem bkey_ne_fkey : c.bkey ≠ c.fkey := by simp [bkey_eq, fkey_eq]

theorem skey_ne_qkey : c.skey ≠ c.qkey := by simp [skey_eq, qkey_eq]

theorem skey_ne_fkey : c.skey ≠ c.fkey := by simp [skey_eq, fkey_eq]

theorem qkey_ne_fkey : c.qkey ≠ c.fkey := by simp [qkey_eq, fkey_eq]

namespace MarshalledFor

variable {c : Call} {limits : ResolvedKey}

theorem cap_eq (hc : c.MarshalledFor limits) : c.argv.capUtok = limits.burstCapacity * utok := by
  rw [hc.argv_eq]
  rfl

theorem rate_eq (hc : c.MarshalledFor limits) :
    c.argv.rateUtok = limits.burstRefillPerSec * utok := by
  rw [hc.argv_eq]
  rfl

theorem window_eq (hc : c.MarshalledFor limits) :
    c.argv.windowUs = limits.sustainedWindowSeconds * utok := by
  rw [hc.argv_eq]
  rfl

end MarshalledFor

end Call

end QuotaGuard
