import Despotify.Gateway.Model
import Despotify.Pool.Base64

/-!
# HTTP credentials

`b64decode` takes every character it does not know for the index 0, so the padding of a
header becomes zeros behind the credentials.  `http_handle_request` splits the buffer at its
first colon; the zeros end the password.

* `b64decode_encode`: what is decoded of an encoding.
* `credentials_recovered`: the user name and the password of a header are those encoded.
-/

namespace Despotify.Gateway

/-! ## `b64decode` -/

theorem b64idx_digit {n : Nat} (h : n < 64) : b64idx (Base64.digit n) = n := by
  have hall : ∀ n : Fin 64, b64idx (Base64.digit n) = n := by decide +kernel
  exact hall ⟨n, h⟩

theorem b64idx_pad : b64idx Base64.pad = 0 := by decide +kernel

theorem b64groups_eq (input : List UInt8) : b64groups input = Base64.groups b64idx input := by
  induction input using b64groups.induct with
  | case1 a b c d input ih =>
    rw [b64groups, Base64.groups, ih]
    rfl
  | case2 input h =>
    rw [b64groups.eq_2 input h, Base64.groups.eq_2 b64idx input h]

theorem b64decode_encode (s : List UInt8) :
    b64decode (Base64.encode s) = s ++ List.replicate (3 * ((s.length + 2) / 3) - s.length) 0 := by
  have hlen : ¬ (Base64.encode s).length % 4 ≠ 0 := by
    rw [Base64.length_encode]
    omega
  rw [b64decode, if_neg hlen, b64groups_eq]
  exact Base64.groups_encode (fun _ => b64idx_digit) b64idx_pad s

/-! ## The credentials -/

theorem takeWhile_replicate_zero (s : List UInt8) (k : Nat) (hs : 0 ∉ s) :
    (s ++ List.replicate k 0).takeWhile (· ≠ 0) = s := by
  have hall : ∀ b ∈ s, decide (b ≠ 0) = true := fun b hb =>
    decide_eq_true fun h => hs (h ▸ hb)
  rw [List.takeWhile_append_of_pos hall]
  cases k with
  | zero => exact List.append_nil s
  | succ k =>
    rw [List.replicate_succ, List.takeWhile_cons_of_neg (by decide), List.append_nil]

/-- A header that is short enough gives back what was encoded. -/
theorem basicCredentials_encode {user password : List UInt8} (huser : 0 ∉ user)
    (hpassword : 0 ∉ password) (hcolon : 58 ∉ user)
    (hlen : (Base64.encode (user ++ 58 :: password)).length ≤ 100) :
    basicCredentials (Base64.encode (user ++ 58 :: password)) = some (user, password) := by
  have hzero : 0 ∉ user ++ 58 :: password := by
    rw [List.mem_append, List.mem_cons, not_or, not_or]
    exact ⟨huser, by decide, hpassword⟩
  have hall : ∀ b ∈ user, decide (b ≠ 58) = true := fun b hb =>
    decide_eq_true fun h => hcolon (h ▸ hb)
  rw [basicCredentials, if_neg (Nat.not_lt.mpr hlen), b64decode_encode]
  dsimp only
  rw [takeWhile_replicate_zero _ _ hzero, if_pos (by simp), List.takeWhile_append_of_pos hall,
    List.dropWhile_append_of_pos hall, List.takeWhile_cons_of_neg (by decide),
    List.dropWhile_cons_of_neg (by decide), List.append_nil, List.drop_succ_cons, List.drop_zero]

/-- The connection keeps its credentials, whatever becomes of the request. -/
theorem deref_credentials {s : Sys} {r : Rest} {k : Client → Sys × Rest × Int}
    {user password : List UInt8} (hr : r.username = user ∧ r.password = password)
    (hk : ∀ c, (k c).2.1.username = user ∧ (k c).2.1.password = password) :
    (s.deref r k).2.1.username = user ∧ (s.deref r k).2.1.password = password := by
  unfold Sys.deref
  split
  · exact hr
  · split
    · exact hr
    · exact hk _

theorem spotifyClientAllocate_credentials (s : Sys) (r : Rest) (clientId : List UInt8) :
    (spotifyClientAllocate s r clientId).2.username = r.username ∧
      (spotifyClientAllocate s r clientId).2.password = r.password := by
  unfold spotifyClientAllocate
  split
  · exact ⟨rfl, rfl⟩
  · exact ⟨rfl, rfl⟩

theorem httpCompleteLogin_credentials (s : Sys) (r : Rest) (env : RestEnv) :
    (httpCompleteLogin s r env).2.1.username = r.username ∧
      (httpCompleteLogin s r env).2.1.password = r.password := by
  unfold httpCompleteLogin
  refine deref_credentials ⟨rfl, rfl⟩ fun c => ?_
  split
  · exact ⟨rfl, rfl⟩
  · exact ⟨rfl, rfl⟩

/-- A request that is the first to log in gets the credentials of its header. -/
theorem httpHandleRequest_credentials {s : Sys} {r : Rest} {h : HttpRequest} {env : RestEnv}
    {user password : List UInt8} (hfirst : s.clients.find? Client.isHttpClient = none)
    (hheader : h.authheader.bind basicCredentials = some (user, password)) :
    (httpHandleRequest s r h env).2.1.username = user ∧
      (httpHandleRequest s r h env).2.1.password = password := by
  unfold httpHandleRequest
  dsimp only
  rw [hfirst, hheader]
  dsimp only
  have hallocate := spotifyClientAllocate_credentials s
    { r with state := .loadCommand, username := user, password := password } env.clientId
  generalize spotifyClientAllocate s _ env.clientId = result at hallocate
  obtain ⟨s₁, r₁⟩ := result
  obtain ⟨huser, hpassword⟩ := hallocate
  refine deref_credentials ⟨huser, hpassword⟩ fun c => ?_
  split
  · have hlogin := httpCompleteLogin_credentials (s₁.setClient { c with isHttpClient := true }) r₁ env
    exact ⟨hlogin.1.trans huser, hlogin.2.trans hpassword⟩
  · exact ⟨huser, hpassword⟩

/-- **Decoding inverts Base64**, and so the credentials of an HTTP request are recovered. -/
theorem credentials_recovered :
    (∀ s, (b64decode (Base64.encode s)).length = 3 * ((s.length + 2) / 3) ∧
      b64decode (Base64.encode s) =
        s ++ List.replicate (3 * ((s.length + 2) / 3) - s.length) 0) ∧
    ∀ (s : Sys) (r : Rest) (h : HttpRequest) (env : RestEnv) (user password : List UInt8),
      0 ∉ user → 0 ∉ password → 58 ∉ user →
      (Base64.encode (user ++ 58 :: password)).length ≤ 100 →
      s.clients.find? Client.isHttpClient = none →
      h.authheader = some (Base64.encode (user ++ 58 :: password)) →
      (httpHandleRequest s r h env).2.1.username = user ∧
        (httpHandleRequest s r h env).2.1.password = password := by
  refine ⟨fun s => ⟨?_, b64decode_encode s⟩, ?_⟩
  · rw [b64decode_encode, List.length_append, List.length_replicate]
    omega
  · intro s r h env user password huser hpassword hcolon hlen hfirst hheader
    refine httpHandleRequest_credentials hfirst ?_
    rw [hheader, Option.bind_some]
    exact basicCredentials_encode huser hpassword hcolon hlen

/-- "Aladdin" and "open sesame". -/
theorem credentials_recovered_aladdin :
    (httpHandleRequest Sys.init (newRest 0)
      ⟨ascii "/", some (Base64.encode (ascii "Aladdin" ++ 58 :: ascii "open sesame")), false⟩
      ⟨none, true, true, true, []⟩).2.1.username = ascii "Aladdin" :=
  (credentials_recovered.2 Sys.init (newRest 0) _ ⟨none, true, true, true, []⟩ (ascii "Aladdin")
    (ascii "open sesame") (by decide +kernel) (by decide +kernel) (by decide +kernel)
    (by decide +kernel) rfl rfl).1

end Despotify.Gateway
