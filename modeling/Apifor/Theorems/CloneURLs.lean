import Apifor.Http.Connections
import Apifor.Executor.Exec

/-!
# Tokens in clone URLs

The brain and the executor each put a token into the URL that a repository is cloned from: where the two
agree, and at whose host the token ends up.
-/

namespace Apifor.API

open Executor (containsText)

variable {provider url token username : String}

/-! ## Hosts -/

/-- The host of a URL, in lower case. -/
def urlHost (url : String) : Option String :=
  (Text.afterChars "://".toList url.toList).map fun rest =>
    let authority := rest.takeWhile fun x => x ≠ '/' && x ≠ '?' && x ≠ '#'
    let host := (authority.reverse.takeWhile (· ≠ '@')).reverse
    Text.toAsciiLowercase (String.ofList (host.takeWhile (· ≠ ':')))

def providerHost (provider : String) : Option String :=
  if provider = "github" then some "github.com"
  else if provider = "gitlab" then some "gitlab.com"
  else if provider = "bitbucket" then some "bitbucket.org"
  else none

/-- The URL is one of the provider. -/
def AtProvider (provider url : String) : Prop := (providerHost provider).isSome ∧ urlHost url = providerHost provider

/-! ## The two rewriters -/

/-- The brain puts the token into the URL. -/
def Injects (provider url token : String) : Prop :=
  token ≠ "" ∧ Text.hasPrefix url "https://" = true ∧ (providerHost provider).isSome

theorem hasPrefix_iff {s pre : String} : Text.hasPrefix s pre = true ↔ s = pre ++ Text.trimPrefix s pre := by
  constructor
  · intro h
    obtain ⟨rest, hrest⟩ := List.isPrefixOf_iff_prefix.1 h
    rw [← String.toList_inj, String.toList_append, Text.trimPrefix, if_pos h, String.toList_ofList, ← hrest,
      ← String.length_toList, List.drop_left]
  · intro h
    rw [Text.hasPrefix, h, String.toList_append]
    exact List.isPrefixOf_iff_prefix.2 (List.prefix_append _ _)

/-- The token stands between a beginning and the rest of the URL. -/
theorem authedCloneURL_of_injects (username : String) (h : Injects provider url token) :
    ∃ pre, authedCloneURL provider url token username = pre ++ token ++ "@" ++ Text.trimPrefix url "https://" ∧
      (provider = "github" → pre = "https://x-access-token:") := by
  obtain ⟨hne, hhttps, hknown⟩ := h
  unfold authedCloneURL
  rw [if_neg (by simp [hne, hhttps])]
  unfold providerHost at hknown
  by_cases hgh : provider = "github"
  · rw [if_pos hgh]
    exact ⟨"https://x-access-token:", by simp only [← String.append_assoc]; rfl, fun _ => rfl⟩
  · rw [if_neg hgh] at hknown ⊢
    by_cases hgl : provider = "gitlab"
    · rw [if_pos hgl]
      exact ⟨"https://oauth2:", by simp only [← String.append_assoc]; rfl, fun h => absurd h hgh⟩
    · rw [if_neg hgl] at hknown ⊢
      by_cases hbb : provider = "bitbucket"
      · rw [if_pos hbb]
        exact ⟨"https://" ++ (if username = "" then "x-token-auth" else username) ++ ":",
          by simp only [← String.append_assoc], fun h => absurd h hgh⟩
      · rw [if_neg hbb] at hknown
        cases hknown

theorem authedCloneURL_of_not_injects (h : ¬ Injects provider url token) :
    authedCloneURL provider url token username = url := by
  unfold authedCloneURL
  split
  · rfl
  · next hcase =>
      rw [not_or, Bool.not_eq_false] at hcase
      have hunknown : ¬ (providerHost provider).isSome := fun hk => h ⟨hcase.1, hcase.2, hk⟩
      unfold providerHost at hunknown
      by_cases hgh : provider = "github"
      · exact absurd rfl (by rwa [if_pos hgh] at hunknown)
      · by_cases hgl : provider = "gitlab"
        · exact absurd rfl (by rwa [if_neg hgh, if_pos hgl] at hunknown)
        · by_cases hbb : provider = "bitbucket"
          · exact absurd rfl (by rwa [if_neg hgh, if_neg hgl, if_pos hbb] at hunknown)
          · rw [if_neg hgh, if_neg hgl, if_neg hbb]

/-! ## Agreement -/

/-- The brain's URL is the executor's, and shows the token only to the provider. -/
structure Mirrors (provider url token username : String) : Prop where
  same : provider = "github" → authedCloneURL provider url token username = Executor.Exec.authedURL url (some token)
  shown : containsText (authedCloneURL provider url token username) token = true → AtProvider provider url

/-- The URL is one that both rewrite in the same way. -/
def Known (url token : String) : Prop :=
  if token = "" then Text.hasPrefix url "https://github.com/" = false
  else Text.hasPrefix url "https://" = true → Text.hasPrefix url "https://github.com/" = true

theorem hasPrefix_https (h : Text.hasPrefix url "https://github.com/" = true) : Text.hasPrefix url "https://" = true := by
  have hpre : "https://".toList <+: "https://github.com/".toList := by decide
  exact List.isPrefixOf_iff_prefix.2 (hpre.trans (List.isPrefixOf_iff_prefix.1 h))

/-- A URL with a token in it is longer. -/
theorem token_ne (pre token url : String) (h : Text.hasPrefix url "https://" = true) (hpre : 8 ≤ pre.length) :
    pre ++ token ++ "@" ++ Text.trimPrefix url "https://" ≠ url := by
  intro he
  have hlen := congrArg String.length (he.trans (hasPrefix_iff.1 h))
  simp only [String.length_append] at hlen
  have hhttps : "https://".length = 8 := rfl
  have hat : "@".length = 1 := rfl
  omega

theorem same_iff : authedCloneURL "github" url token username = Executor.Exec.authedURL url (some token) ↔
    Known url token := by
  unfold Known Executor.Exec.authedURL
  dsimp only
  by_cases hne : token = ""
  · rw [if_pos hne, authedCloneURL_of_not_injects fun h => h.1 hne]
    cases hgh : Text.hasPrefix url "https://github.com/" with
    | false => exact iff_of_true rfl rfl
    | true =>
        rw [if_pos rfl]
        exact iff_of_false (fun h => token_ne "https://x-access-token:" token url (hasPrefix_https hgh) (by decide) h.symm)
          (by simp)
  · rw [if_neg hne]
    cases hhttps : Text.hasPrefix url "https://" with
    | false =>
        have hgh : Text.hasPrefix url "https://github.com/" = false := by
          cases hgh : Text.hasPrefix url "https://github.com/" with
          | false => rfl
          | true => exact absurd (hasPrefix_https hgh) (by simp [hhttps])
        rw [authedCloneURL_of_not_injects fun h => absurd h.2.1 (by simp [hhttps]), if_neg (by simp [hgh])]
        exact iff_of_true rfl fun h => nomatch h
    | true =>
        obtain ⟨pre, hpre, hgithub⟩ := authedCloneURL_of_injects username
          (⟨hne, hhttps, rfl⟩ : Injects "github" url token)
        rw [hpre, hgithub rfl]
        cases hgh : Text.hasPrefix url "https://github.com/" with
        | true => exact iff_of_true rfl fun _ => rfl
        | false =>
            rw [if_neg (by simp)]
            exact iff_of_false (token_ne _ token url hhttps (by decide)) (by simp)

theorem contains_iff_shown : containsText (authedCloneURL provider url token username) token = true ↔
    Injects provider url token ∨ containsText url token = true := by
  by_cases h : Injects provider url token
  · refine iff_of_true ?_ (.inl h)
    obtain ⟨pre, hpre, -⟩ := authedCloneURL_of_injects username h
    rw [hpre, Executor.containsText_iff, String.toList_append, String.toList_append, String.toList_append]
    exact ⟨pre.toList, "@".toList ++ (Text.trimPrefix url "https://").toList, by simp⟩
  · rw [authedCloneURL_of_not_injects h]
    exact (or_iff_right h).symm

/-- The brain mirrors the executor and keeps the token at its provider exactly for the URLs that begin with
the executor's prefix, and whose host is the provider's wherever the token goes. -/
theorem mirrors_iff (provider url token username : String) :
    Mirrors provider url token username ↔
      (provider = "github" → Known url token) ∧
        (Injects provider url token ∨ containsText url token = true → AtProvider provider url) := by
  constructor
  · rintro ⟨hsame, hshown⟩
    refine ⟨?_, fun h => hshown (contains_iff_shown.2 h)⟩
    rintro rfl
    exact same_iff.1 (hsame rfl)
  · rintro ⟨hknown, hat⟩
    refine ⟨?_, fun h => hat (contains_iff_shown.1 h)⟩
    rintro rfl
    exact same_iff.2 (hknown rfl)

/-- A URL of another server, for which the client names GitHub. -/
theorem mirrors_foreign : ¬ ∀ provider url token username : String, Mirrors provider url token username := by
  intro h
  have hat := (h "github" "https://evil.example/x.git" "ghp_1" "").shown (by decide +kernel)
  exact absurd hat.2 (by decide +kernel)

end Apifor.API
