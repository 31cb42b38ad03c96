import Apifor.Http.Stripe
import Apifor.Lib.Literal

/-!
# The scan of an answer

`postStripe` looks for `"url":"` in the text of the answer and takes what stands before the next quote. It
agrees with a reader of JSON just when the first place of that pattern is the member itself and nothing but
slashes is escaped in its literal, or when what stands at the first place spells the same value.
-/

namespace Json

variable {n : Nat} {text : String} {ms : List (String × Json)}

/-- The text is one value, nested at most so deep. -/
def Reads (n : Nat) (text : String) (j : Json) : Prop :=
  ∃ rest, value n (skipWs text.toList) = some (j, rest) ∧ skipWs rest = []

/-- The texts that begin with the values of the members, in the text of an object. -/
def valuesOf : Nat → String → List (List Char)
  | 0, _ => []
  | n + 1, text =>
      match skipWs text.toList with
      | '\x7b' :: cs => valueTexts (value n) ((skipWs cs).length + 1) (skipWs cs)
      | _ => []

theorem value_str {cs rest : List Char} {x : String} (h : value n cs = some (.str x, rest)) :
    ∃ m t, cs = '"' :: t ∧ stringBody m t = some (x.toList, rest) := by
  cases n with
  | zero => cases h
  | succ n =>
      unfold value at h
      split at h
      · cases h
      · cases h
      · cases h
      · next t =>
          obtain ⟨⟨lit, r⟩, hr, h⟩ := Option.map_eq_some_iff.1 h
          cases h
          exact ⟨_, t, rfl, by rw [hr, String.toList_ofList]⟩
      · split at h
        · cases h
        · obtain ⟨r, -, h⟩ := Option.map_eq_some_iff.1 h
          cases h
      · split at h
        · cases h
        · obtain ⟨r, -, h⟩ := Option.map_eq_some_iff.1 h
          cases h
      · obtain ⟨r, -, h⟩ := Option.map_eq_some_iff.1 h
        cases h

theorem value_obj {cs rest : List Char} (h : value (n + 1) cs = some (.obj ms, rest)) (hne : ms ≠ []) :
    ∃ t m, cs = '\x7b' :: t ∧ members (value n) ((skipWs t).length + 1) (skipWs t) = some (ms, m) := by
  unfold value at h
  split at h
  · cases h
  · cases h
  · cases h
  · obtain ⟨r, -, h⟩ := Option.map_eq_some_iff.1 h
    cases h
  · split at h
    · cases h
    · obtain ⟨r, -, h⟩ := Option.map_eq_some_iff.1 h
      cases h
  · next t =>
      split at h
      · cases h
        exact (hne rfl).elim
      · obtain ⟨⟨ms', m⟩, hms, h⟩ := Option.map_eq_some_iff.1 h
        cases h
        exact ⟨t, m, rfl, hms⟩
  · obtain ⟨r, -, h⟩ := Option.map_eq_some_iff.1 h
    cases h

/-- A member that is a string has its literal where its value stands. -/
theorem Reads.literal (h : Reads n text (.obj ms)) {i : Nat} {k x : String} (hi : ms[i]? = some (k, .str x)) :
    ∃ m cs rest, (valuesOf n text)[i]? = some ('"' :: cs) ∧ stringBody m cs = some (x.toList, rest) := by
  obtain ⟨after, hvalue, -⟩ := h
  cases n with
  | zero => cases hvalue
  | succ n =>
      obtain ⟨t, r, htext, hms⟩ := value_obj hvalue fun hnil => by
        rw [hnil] at hi
        cases hi
      obtain ⟨v, rest, hv, hx⟩ := members_valueTexts hms hi
      obtain ⟨m, cs, rfl, hread⟩ := value_str hx
      refine ⟨m, cs, rest, ?_, hread⟩
      rw [valuesOf, htext]
      exact hv

end Json

namespace Apifor

namespace Stripe

variable {n i : Nat} {st : Int} {field body x : String} {ms : List (String × Json)}

/-- The pattern of the scan. -/
def pattern (field : String) : String := "\"" ++ field ++ "\":\""

/-- The first place of the pattern is the member with a number, and only slashes are escaped in its literal; or it
is another place, where the value is spelled as well. -/
def Plain (n : Nat) (field body : String) (i : Nat) (x : String) : Prop :=
  ∃ rest, Text.afterChars (pattern field).toList body.toList = some rest ∧
    if (Json.valuesOf n body)[i]? = some ('"' :: rest) then Json.slashesOnly rest = true
    else Text.Spells x.toList rest

theorem postStripe_eq (hst : st < 300) : postStripe field (.answer st body) = .ok x ↔
    ∃ rest, Text.afterChars (pattern field).toList body.toList = some rest ∧
      (Text.upToChar '"' rest).map Text.unescapeSlashes = some x.toList := by
  simp only [postStripe, if_neg (Int.not_le.2 hst), Text.between]
  rw [show "\"" ++ field ++ "\":\"" = pattern field from rfl]
  cases Text.afterChars (pattern field).toList body.toList with
  | none => simp
  | some rest =>
      simp only [Option.map_some, Option.some.injEq, exists_eq_left']
      cases Text.upToChar '"' rest with
      | none => simp
      | some r =>
          simp only [Option.map_some, Except.ok.injEq, Option.some.injEq, String.toList_ofList]
          rw [← String.toList_inj, String.toList_ofList]

/-- The scan returns a member's value just when the first place of the pattern is its own and its literal is plain,
or the value is spelled there all the same. -/
theorem postStripe_iff (n : Nat) (hst : st < 300) (hbody : Json.Reads n body (.obj ms))
    (hi : ms[i]? = some (field, .str x)) :
    postStripe field (.answer st body) = .ok x ↔ Plain n field body i x := by
  rw [postStripe_eq hst]
  refine exists_congr fun rest => and_congr_right fun _ => ?_
  split
  · next hown =>
      obtain ⟨m, cs, after, hvalue, hread⟩ := hbody.literal hi
      cases hvalue.symm.trans hown
      exact Json.stringBody_slashesOnly hread
  · exact Text.spells_iff.symm

namespace Sample

def members (x : String) : List (String × Json) := [("id", .str "cs_1"), ("url", .str x)]

/-- The value has its slashes escaped, and nothing stands before it. -/
def compact : String := "\x7b\"id\":\"cs_1\",\"url\":\"https:\\/\\/s.co\"\x7d"

/-- A blank follows each colon. -/
def spaced : String := "\x7b\"id\": \"cs_1\", \"url\": \"https://s.co\"\x7d"

theorem reads_compact : Json.Reads 2 compact (.obj (members "https://s.co")) := ⟨[], rfl, rfl⟩

theorem reads_spaced : Json.Reads 2 spaced (.obj (members "https://s.co")) := ⟨[], rfl, rfl⟩

end Sample

theorem postStripe_iff_sample :
    postStripe "url" (.answer 200 Sample.compact) = .ok "https://s.co" ↔
      Plain 2 "url" Sample.compact 1 "https://s.co" :=
  postStripe_iff 2 (by decide) Sample.reads_compact rfl

/-- A member with a blank before its value is not found. -/
theorem spaced_member : ¬ ∀ (n i : Nat) (st : Int) (field body x : String) (ms : List (String × Json)), st < 300 →
    Json.Reads n body (.obj ms) → ms[i]? = some (field, .str x) → postStripe field (.answer st body) = .ok x := by
  intro h
  have hfound := h 2 1 200 "url" Sample.spaced "https://s.co" _ (by decide) Sample.reads_spaced rfl
  have hlost : postStripe "url" (.answer 200 Sample.spaced) = .error "resposta sem campo url" := by decide +kernel
  rw [hlost] at hfound
  cases hfound

end Stripe

end Apifor
