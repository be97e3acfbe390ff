import QuotaGuard.Lib.Base64
import QuotaGuard.Service.Endpoint

/-!
# Secrets

What `issue_key` draws: the secret a caller is shown once, and the id of the key. Only the hash of the
secret and its first characters are stored.
-/

namespace QuotaGuard

/-- `secrets.token_urlsafe`. -/
def tokenUrlsafe (bytes : List UInt8) : String := String.ofList (Base64.encode bytes)

/-- `secrets.token_hex`. -/
def tokenHex (bytes : List UInt8) : List Char :=
  bytes.flatMap fun b => [Nat.digitChar (b.toNat / 16), Nat.digitChar (b.toNat % 16)]

/-- The random bytes of an issue. -/
structure KeyDraw where
  secret : List UInt8
  secret_length : secret.length = 32
  id : List UInt8
  id_length : id.length = 6

namespace KeyDraw

variable (draw : KeyDraw)

/-- `generate_secret`. -/
def generateSecret : String := "qk_" ++ tokenUrlsafe draw.secret

/-- `key_prefix`: the first `DISPLAY_PREFIX_LENGTH` characters. -/
def keyPrefix : List Char := draw.generateSecret.toList.take 12

theorem toList_generateSecret :
    draw.generateSecret.toList = 'q' :: 'k' :: '_' :: Base64.encode draw.secret := by
  rw [generateSecret, tokenUrlsafe, String.toList_append, String.toList_ofList, String.toList_ofList]
  rfl

theorem length_generateSecret : draw.generateSecret.length = 46 := by
  rw [← String.length_toList, toList_generateSecret, List.length_cons, List.length_cons,
    List.length_cons, Base64.length_encode, draw.secret_length]

/-- The secret as a caller sends it. -/
def apiKey : Secret where
  val := draw.generateSecret
  minLength := by
    rw [length_generateSecret]
    decide
  maxLength := by
    rw [length_generateSecret]
    decide

theorem length_tokenHex (bytes : List UInt8) : (tokenHex bytes).length = 2 * bytes.length := by
  induction bytes with
  | nil => rfl
  | cons b bytes ih =>
      rw [tokenHex, List.flatMap_cons, List.length_append, ← tokenHex, ih, List.length_cons]
      simp only [List.length_cons, List.length_nil]
      omega

theorem isHex_tokenHex {bytes : List UInt8} {c : Char} (h : c ∈ tokenHex bytes) : isHex c := by
  have hall : ∀ d < 16, isHex (Nat.digitChar d) := by decide
  obtain ⟨b, -, hc⟩ := List.mem_flatMap.mp h
  have hb := b.toNat_lt
  rcases List.mem_pair.mp hc with rfl | rfl
  · exact hall _ (by omega)
  · exact hall _ (by omega)

/-- `generate_key_id`, of the six bytes drawn for it. -/
def keyId : KeyId :=
  generateKeyId (tokenHex draw.id) (by rw [length_tokenHex, draw.id_length]) fun _ => isHex_tokenHex

/-- The call `issue_key` is, with `hash_secret` for the hash. -/
def issueKey (hash : String → String) (planSlug : String) (name : Name) : AdminCall :=
  .issueKey planSlug name draw.keyId (hash draw.generateSecret)

end KeyDraw

end QuotaGuard
