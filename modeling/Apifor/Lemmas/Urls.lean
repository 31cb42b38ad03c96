import Apifor.Sidecar.Flow

/-!
# URLs in a part of the output

What shows in a text of the hyperlinks and the plain URLs of a longer one. A hyperlink is found complete or not at
all; a plain URL ends where the text ends. What is the longest in the text may be cut in the longer one.
-/

namespace Sidecar

open Regex Utf8

variable {cs more params params' w w' term : Bytes} {y : Bytes × Bytes}

/-! ## Hyperlinks -/

def linkStart : Bytes := esc :: ascii "]8;"

def https : Bytes := ascii "https://"

/-- A text that begins with a hyperlink. -/
structure Link (cs params w term rest : Bytes) : Prop where
  text : cs = linkStart ++ (params ++ 0x3b :: (https ++ (w ++ (term ++ rest))))
  params : ∀ b ∈ params, b ≠ 0x3b
  target : ∀ b ∈ w, b ≠ esc ∧ b ≠ bel
  nonempty : w ≠ []
  term : term = [esc, 0x5c] ∨ term = [bel]

theorem mem_osc8 : y ∈ ways osc8 ([], cs) ↔ ∃ params w term, Link cs params w term y.2 ∧ y.1 = https ++ w := by
  have htarget : ∀ {t rest : Bytes}, (t ++ rest).take ((t ++ rest).length - rest.length) = t := fun {t rest} => by
    rw [List.length_append, Nat.add_sub_cancel, List.take_left]
  simp only [osc8, all, mem_seq, mem_alt, mem_lit, mem_many, mem_group]
  constructor
  · rintro ⟨z, ⟨-, hz⟩, z₁, ⟨-, params, hparams, hp, -⟩, z₂, ⟨-, hz₂⟩, z₃,
      ⟨hg, g, z₄, ⟨-, hz₄⟩, -, w, hw, hq, hlen⟩, hy⟩
    have hsplit : ∃ term : Bytes, z₃.2 = term ++ y.2 ∧ (term = [esc, 0x5c] ∨ term = [bel]) ∧ y.1 = z₃.1 := by
      obtain ⟨hy, ht⟩ | ⟨hy, ht⟩ := hy
      · exact ⟨_, ht, .inl rfl, hy⟩
      · exact ⟨_, ht, .inr rfl, hy⟩
    obtain ⟨term, hterm, hkind, hgroup⟩ := hsplit
    refine ⟨params, w, term, ⟨?_, ?_, ?_, ?_, hkind⟩, ?_⟩
    · rw [hz, hparams, hz₂, hz₄, hw, hterm]
      rfl
    · simpa using hp
    · simpa using hq
    · rintro rfl
      cases hlen
    · rw [hgroup, hg, hz₄, hw, ← List.append_assoc, htarget]
      rfl
  · rintro ⟨params, w, term, h, hy⟩
    have hgroup : https ++ w = (https ++ (w ++ (term ++ y.2))).take
        ((https ++ (w ++ (term ++ y.2))).length - (term ++ y.2).length) := by rw [← List.append_assoc, htarget]
    refine ⟨([], _), ⟨rfl, h.text⟩,
      ([], 0x3b :: (https ++ (w ++ (term ++ y.2)))), ⟨rfl, params, rfl, ?_, Nat.zero_le _⟩,
      ([], https ++ (w ++ (term ++ y.2))), ⟨rfl, rfl⟩, (https ++ w, term ++ y.2),
      ⟨hgroup, [], ([], w ++ (term ++ y.2)), ⟨rfl, rfl⟩, rfl, w, rfl, ?_, List.length_pos_iff.2 h.nonempty⟩, ?_⟩
    · simpa using h.params
    · simpa using h.target
    · obtain hterm | hterm := h.term
      · exact .inl ⟨hy, by rw [hterm]; rfl⟩
      · exact .inr ⟨hy, by rw [hterm]⟩

theorem Link.append {rest : Bytes} (h : Link cs params w term rest) (more : Bytes) :
    Link (cs ++ more) params w term (rest ++ more) :=
  ⟨by rw [h.text]; simp, h.params, h.target, h.nonempty, h.term⟩

/-- A text begins with one hyperlink at most. -/
theorem Link.unique {term' rest rest' : Bytes} (h : Link cs params w term rest)
    (h' : Link cs params' w' term' rest') : w = w' ∧ rest = rest' := by
  have htext := List.append_cancel_left (h.text.symm.trans h'.text)
  obtain ⟨-, hrest⟩ := run_unique h.params h'.params (fun hne => hne rfl) (fun hne => hne rfl) htext
  have hw := List.append_cancel_left (List.cons.inj hrest).2
  have hesc : ¬ (esc ≠ esc ∧ esc ≠ bel) := fun hne => hne.1 rfl
  have hbel : ¬ (bel ≠ esc ∧ bel ≠ bel) := fun hne => hne.2 rfl
  obtain rfl | rfl := h.term
  · obtain rfl | rfl := h'.term
    · obtain ⟨rfl, heq⟩ := run_unique h.target h'.target hesc hesc hw
      exact ⟨rfl, (List.cons.inj (List.cons.inj heq).2).2⟩
    · obtain ⟨-, heq⟩ := run_unique h.target h'.target hesc hbel hw
      exact absurd (List.cons.inj heq).1 (by decide)
  · obtain rfl | rfl := h'.term
    · obtain ⟨-, heq⟩ := run_unique h.target h'.target hbel hesc hw
      exact absurd (List.cons.inj heq).1 (by decide)
    · obtain ⟨rfl, heq⟩ := run_unique h.target h'.target hbel hbel hw
      exact ⟨rfl, (List.cons.inj heq).2⟩

theorem matchAt_of_link {rest : Bytes} (h : Link cs params w term rest) :
    ∃ m, matchAt osc8 cs = some m ∧ m.group = https ++ w ∧ cs = m.text ++ rest := by
  cases hm : matchAt osc8 cs with
  | none => exact (matchAt_eq_none.1 hm (https ++ w, rest) (mem_osc8.2 ⟨params, w, term, h, rfl⟩)).elim
  | some m =>
      obtain ⟨y, hy, htext, hg⟩ := matchAt_eq_some hm
      obtain ⟨params', w', term', h', hw'⟩ := mem_osc8.1 (List.mem_of_mem_head? hy)
      obtain ⟨rfl, rfl⟩ := h.unique h'
      exact ⟨m, rfl, hg.trans hw', htext⟩

theorem link_of_matchAt {m : Match UInt8} (h : matchAt osc8 cs = some m) :
    ∃ params w term rest, Link cs params w term rest ∧ m.group = https ++ w ∧ cs = m.text ++ rest := by
  obtain ⟨y, hy, htext, hg⟩ := matchAt_eq_some h
  obtain ⟨params, w, term, hl, hw⟩ := mem_osc8.1 (List.mem_of_mem_head? hy)
  exact ⟨params, w, term, y.2, hl, hg.trans hw, htext⟩

/-- A hyperlink that is complete stays as it is. -/
theorem osc8_keeps {m : Match UInt8} (h : matchAt osc8 cs = some m) (more : Bytes) :
    matchAt osc8 (cs ++ more) = some m := by
  obtain ⟨params, w, term, rest, hl, hg, htext⟩ := link_of_matchAt h
  obtain ⟨m', hm', hg', htext'⟩ := matchAt_of_link (hl.append more)
  rw [hm']
  obtain ⟨text, group⟩ := m
  obtain ⟨text', group'⟩ := m'
  cases hg.trans hg'.symm
  have heq : text' ++ (rest ++ more) = text ++ (rest ++ more) := by
    rw [← htext', ← List.append_assoc, ← show cs = text ++ rest from htext]
  cases List.append_cancel_right heq
  rfl

theorem linkStart_eq : linkStart = [esc, 0x5d, 0x38, 0x3b] := rfl

/-- A hyperlink inside another text, not at its beginning, has its separator after that of the text. -/
theorem link_inside {a d rest : Bytes} (us : Bytes) (hne : a ≠ []) (hp : ∀ b ∈ params, b ≠ 0x3b)
    (hl : Link cs params' w term rest) (h : linkStart ++ (params ++ 0x3b :: us) = a ++ (cs ++ d)) :
    ∃ t, us = t ++ (https ++ (w ++ (term ++ (rest ++ d)))) := by
  rw [hl.text, linkStart_eq] at h
  have hsep : (0x3b : UInt8) ∉ params := fun hmem => hp _ hmem rfl
  rcases a with - | ⟨a₀, - | ⟨a₁, - | ⟨a₂, - | ⟨a₃, a⟩⟩⟩⟩
  · exact (hne rfl).elim
  · cases h
  · cases h
  · cases h
  · simp only [List.cons_append, List.nil_append, List.cons.injEq, List.append_assoc] at h
    obtain ⟨rfl, rfl, rfl, rfl, h⟩ := h
    have hfirst : (params' ++ 0x3b :: (https ++ (w ++ (term ++ (rest ++ d))))) <:+ us := by
      refine suffix_of_first params (a ++ [esc, 0x5d, 0x38]) hsep (h.trans ?_)
      simp
    obtain ⟨t, ht⟩ := (List.suffix_cons 0x3b _).trans ((List.suffix_append params' _).trans hfirst)
    exact ⟨t, ht.symm⟩

/-- Nothing follows in what has been read of a hyperlink that is not complete. -/
theorem osc8_late (h : matchAt osc8 cs = none) (hmore : matchAt osc8 (cs ++ more) ≠ none) : finditer osc8 cs = [] := by
  obtain ⟨m, hm⟩ := Option.ne_none_iff_exists'.1 hmore
  obtain ⟨params, w, term, rest, hl, -, -⟩ := link_of_matchAt hm
  have hopen : ∀ {c : Bytes}, cs ≠ linkStart ++ (params ++ 0x3b :: (https ++ (w ++ (term ++ c)))) := fun {c} hc => by
    obtain ⟨m', hm', -⟩ := matchAt_of_link ⟨hc, hl.params, hl.target, hl.nonempty, hl.term⟩
    rw [h] at hm'
    cases hm'
  -- what has been read ends inside the hyperlink
  obtain ⟨d, hfull, hd⟩ : ∃ d, linkStart ++ (params ++ 0x3b :: (https ++ (w ++ term))) = cs ++ d ∧ d ≠ [] := by
    have htext : cs ++ more = linkStart ++ (params ++ 0x3b :: (https ++ (w ++ term))) ++ rest := by
      rw [hl.text]
      simp
    obtain ⟨d, hfull, -⟩ | ⟨c, hc, -⟩ := List.append_eq_append_iff.1 htext
    · refine ⟨d, hfull, ?_⟩
      rintro rfl
      rw [List.append_nil] at hfull
      exact hopen (c := []) (by rw [← hfull, List.append_nil])
    · refine (hopen (c := c) (hc.trans ?_)).elim
      simp
  refine finditer_eq_nil.2 fun k hk => matchAt_eq_none.2 fun z hz => ?_
  obtain ⟨params', w', term', hl', -⟩ := mem_osc8.1 hz
  have hk0 : cs.take k ≠ [] := fun hnil => by
    rw [List.take_eq_nil_iff] at hnil
    obtain rfl | rfl := hnil
    · exact matchAt_eq_none.1 h z hz
    · cases hk
  obtain ⟨t, ht⟩ := link_inside (d := d) (https ++ (w ++ term)) hk0 hl.params hl' (by
    rw [hfull, ← List.append_assoc, List.take_append_drop])
  have hhttps : ∀ b ∈ https, b ≠ esc ∧ b ≠ bel := by simpa using (by decide : https.all fun b => b ≠ esc ∧ b ≠ bel)
  have htarget : ∀ b ∈ https ++ w, b ≠ esc ∧ b ≠ bel := fun b hb =>
    (List.mem_append.1 hb).elim (hhttps b) (hl.target b)
  have hesc : esc ∉ https ++ w := fun hmem => (htarget _ hmem).1 rfl
  have hbel : bel ∉ https ++ w := fun hmem => (htarget _ hmem).2 rfl
  have hends : ∀ {c : UInt8} (us : Bytes), c ∉ https ++ w →
      https ++ (w ++ c :: us) ≠ t ++ (https ++ (w' ++ c :: (us ++ (z.2 ++ d)))) := fun {c} us hc heq => by
    have hsuffix := suffix_of_first (https ++ w) (t ++ (https ++ w')) hc (by simpa using heq)
    have hle := hsuffix.length_le
    have hpos := List.length_pos_iff.2 hd
    simp only [List.length_append] at hle
    omega
  obtain rfl | rfl := hl.term
  · obtain rfl | rfl := hl'.term
    · exact hends [0x5c] hesc ht
    · have hmem : bel ∈ (https ++ w) ++ [esc, 0x5c] := by
        rw [List.append_assoc, ht]
        simp
      exact (List.mem_append.1 hmem).elim hbel (by decide)
  · obtain rfl | rfl := hl'.term
    · have hmem : esc ∈ (https ++ w) ++ [bel] := by
        rw [List.append_assoc, ht]
        simp
      exact (List.mem_append.1 hmem).elim hesc (by decide)
    · exact hends [] hbel ht

/-- The hyperlinks of a text are the first ones of a longer text. -/
theorem osc8_grows (cs more : Bytes) : finditer osc8 cs <+: finditer osc8 (cs ++ more) := by
  have hext : Extends (fun _ _ => False) (finditer osc8 cs) (finditer osc8 (cs ++ more)) :=
    matchesFrom_extends (fun cs m hm => .inl (osc8_keeps hm more)) (fun cs => osc8_late) 0 cs
  generalize finditer osc8 cs = ms at hext
  generalize finditer osc8 (cs ++ more) = ms' at hext
  induction hext with
  | nil ms => exact List.nil_prefix
  | cons m _ ih => exact List.cons_prefix_cons.2 ⟨rfl, ih⟩
  | last _ hr => exact hr.elim

theorem linked_grows (cs more : Bytes) : linked cs <+: linked (cs ++ more) :=
  ((osc8_grows cs more).map _).filter _

/-! ## Plain URLs -/

/-- A text that begins with an authorization URL and goes on with the rest of its run. -/
structure Raw (cs a b rest : Bytes) : Prop where
  text : cs = https ++ (a ++ (authorize ++ (b ++ rest)))
  before : ∀ c ∈ a, urlByte c = true
  after : ∀ c ∈ b, urlByte c = true

theorem mem_rawUrl : y ∈ ways rawUrl ([], cs) ↔ y.1 = [] ∧ ∃ a b, Raw cs a b y.2 := by
  simp only [rawUrl, all, mem_seq, mem_lit, mem_many]
  constructor
  · rintro ⟨z, ⟨hg, hz⟩, z₁, ⟨hg₁, a, ha, hpa, -⟩, z₂, ⟨hg₂, hz₂⟩, hg₃, b, hb, hpb, -⟩
    refine ⟨hg₃.trans (hg₂.trans (hg₁.trans hg)), a, b, ⟨?_, hpa, hpb⟩⟩
    rw [hz, ha, hz₂, hb]
    rfl
  · rintro ⟨hg, a, b, h⟩
    exact ⟨([], _), ⟨rfl, h.text⟩, ([], authorize ++ (b ++ y.2)), ⟨rfl, a, rfl, h.before, Nat.zero_le _⟩,
      ([], b ++ y.2), ⟨rfl, rfl⟩, hg, b, rfl, h.after, Nat.zero_le _⟩

theorem url_https : ∀ c ∈ https, urlByte c = true := List.all_eq_true.1 (by decide)

theorem url_authorize : ∀ c ∈ authorize, urlByte c = true := List.all_eq_true.1 (by decide)

theorem dropWhile_append_of_forall {p : UInt8 → Bool} {t rest : Bytes} (h : ∀ c ∈ t, p c = true) :
    (t ++ rest).dropWhile p = rest.dropWhile p := by
  induction t with
  | nil => rfl
  | cons c t ih =>
      rw [List.cons_append, List.dropWhile_cons_of_pos (h c List.mem_cons_self)]
      exact ih fun d hd => h d (List.mem_cons_of_mem _ hd)

/-- A plain URL takes the whole of its run. -/
theorem rawUrl_text {m : Match UInt8} (h : matchAt rawUrl cs = some m) :
    m.text = cs.takeWhile urlByte ∧ m.group = [] := by
  obtain ⟨y, hy, htext, hg⟩ := matchAt_eq_some h
  have hmem := mem_rawUrl.1 (List.mem_of_mem_head? hy)
  have hrest : y.2 = cs.dropWhile urlByte := by
    obtain ⟨z, hz, hy⟩ := head?_seq hy
    obtain ⟨z₁, hz₁, hy⟩ := head?_seq hy
    obtain ⟨z₂, hz₂, hy⟩ := head?_seq hy
    rw [show all [many urlByte 0] = many urlByte 0 from rfl, head?_many] at hy
    obtain ⟨-, a, ha, hpa, -⟩ := mem_many.1 hz₁
    have hcs : cs = https ++ (a ++ (authorize ++ z₂.2)) := by
      rw [← show z₁.2 = authorize ++ z₂.2 from (mem_lit.1 hz₂).2, ← ha]
      exact (mem_lit.1 hz).2
    rw [← Option.some.inj hy, hcs, dropWhile_append_of_forall url_https, dropWhile_append_of_forall hpa,
      dropWhile_append_of_forall url_authorize]
  refine ⟨?_, hg.trans hmem.1⟩
  have heq : m.text ++ y.2 = cs.takeWhile urlByte ++ y.2 := by rw [← htext, hrest, List.takeWhile_append_dropWhile]
  exact List.append_cancel_right heq

theorem matchAt_of_raw {a b rest : Bytes} (h : Raw cs a b rest) :
    ∃ m, matchAt rawUrl cs = some m ∧ m.text = cs.takeWhile urlByte ∧ m.group = [] := by
  cases hm : matchAt rawUrl cs with
  | none => exact (matchAt_eq_none.1 hm ([], rest) (mem_rawUrl.2 ⟨rfl, a, b, h⟩)).elim
  | some m => exact ⟨m, rfl, rawUrl_text hm⟩

theorem raw_of_matchAt {m : Match UInt8} (h : matchAt rawUrl cs = some m) : ∃ a b rest, Raw cs a b rest := by
  obtain ⟨y, hy, -⟩ := matchAt_eq_some h
  obtain ⟨-, a, b, hraw⟩ := mem_rawUrl.1 (List.mem_of_mem_head? hy)
  exact ⟨a, b, y.2, hraw⟩

/-- A plain URL stays in a longer text, or it ends what has been read and goes on there. -/
theorem rawUrl_keeps {m : Match UInt8} (h : matchAt rawUrl cs = some m) (more : Bytes) :
    matchAt rawUrl (cs ++ more) = some m ∨
      m.text = cs ∧ ∃ m', matchAt rawUrl (cs ++ more) = some m' ∧ m.text <+: m'.text := by
  obtain ⟨htext, hg⟩ := rawUrl_text h
  obtain ⟨a, b, rest, hraw⟩ := raw_of_matchAt h
  have hmore : Raw (cs ++ more) a b (rest ++ more) := ⟨by rw [hraw.text]; simp, hraw.before, hraw.after⟩
  obtain ⟨m', hm', htext', hg'⟩ := matchAt_of_raw hmore
  rw [List.takeWhile_append] at htext'
  by_cases hall : (cs.takeWhile urlByte).length = cs.length
  · have hcs : m.text = cs := htext.trans ((List.takeWhile_prefix urlByte).eq_of_length hall)
    refine .inr ⟨hcs, m', hm', ?_⟩
    rw [if_pos hall] at htext'
    rw [hcs, htext']
    exact List.prefix_append _ _
  · rw [if_neg hall, ← htext] at htext'
    rw [hm']
    obtain ⟨text, group⟩ := m
    obtain ⟨text', group'⟩ := m'
    cases hg
    cases hg'
    cases htext'
    exact .inl rfl

/-- Nothing follows a place where an authorization URL has only begun. -/
theorem rawUrl_late (h : matchAt rawUrl cs = none) (hmore : matchAt rawUrl (cs ++ more) ≠ none) :
    finditer rawUrl cs = [] := by
  obtain ⟨m, hm⟩ := Option.ne_none_iff_exists'.1 hmore
  obtain ⟨a, b, rest, hraw⟩ := raw_of_matchAt hm
  have hopen : ∀ {a b c : Bytes}, ¬ Raw cs a b c := fun {a b c} hc => by
    obtain ⟨m', hm', -⟩ := matchAt_of_raw hc
    rw [h] at hm'
    cases hm'
  -- all of it is one run, which is cut before the path is complete
  obtain ⟨d, hd⟩ : ∃ d, https ++ (a ++ authorize) = cs ++ d := by
    have htext : cs ++ more = https ++ (a ++ authorize) ++ (b ++ rest) := by
      rw [hraw.text]
      simp
    obtain ⟨d, hd, -⟩ | ⟨c, hc, -⟩ := List.append_eq_append_iff.1 htext
    · exact ⟨d, hd⟩
    · refine (hopen (a := a) (b := []) (c := c) ⟨hc.trans ?_, hraw.before, nofun⟩).elim
      simp
  have hrun : ∀ c ∈ cs, urlByte c = true := fun c hc => by
    have hmem : c ∈ https ++ (a ++ authorize) := hd ▸ List.mem_append_left d hc
    rcases List.mem_append.1 hmem with hc | hc
    · exact url_https c hc
    · exact (List.mem_append.1 hc).elim (hraw.before c) (url_authorize c)
  refine finditer_eq_nil.2 fun k hk => matchAt_eq_none.2 fun z hz => ?_
  obtain ⟨-, a', b', hraw'⟩ := mem_rawUrl.1 hz
  have hcs : cs = cs.take k ++ (https ++ a') ++ (authorize ++ (b' ++ z.2)) := by
    have htext := List.take_append_drop k cs
    rw [hraw'.text] at htext
    refine htext.symm.trans ?_
    simp only [List.append_assoc]
  have hprefix : https <+: cs.take k ++ (https ++ a') := by
    have hhttps : https <+: cs ++ d := hd ▸ List.prefix_append _ _
    refine List.prefix_of_prefix_length_le hhttps ⟨authorize ++ (b' ++ z.2) ++ d, ?_⟩ ?_
    · rw [← List.append_assoc, ← hcs]
    · simp only [List.length_append]
      omega
  obtain ⟨e, he⟩ := hprefix
  rw [← he] at hcs
  refine hopen (a := e) (b := b') (c := z.2) ⟨hcs.trans (List.append_assoc ..), fun c hc => hrun c ?_, hraw'.after⟩
  rw [hcs]
  exact List.mem_append_left _ (List.mem_append_right _ hc)

/-! ## The longest -/

/-- Of the longest of a list, the first. -/
def FirstLongest {α : Type} (xs : List (List α)) (u : List α) : Prop :=
  ∃ as zs, xs = as ++ u :: zs ∧ (∀ v ∈ as, v.length < u.length) ∧ ∀ v ∈ zs, v.length ≤ u.length

section Longest

variable {α : Type} {b x u : List α} {xs : List (List α)}

theorem FirstLongest.le (h : FirstLongest xs u) {v : List α} (hv : v ∈ xs) : v.length ≤ u.length := by
  obtain ⟨as, zs, rfl, has, hzs⟩ := h
  rcases List.mem_append.1 hv with hv | hv
  · exact Nat.le_of_lt (has v hv)
  · cases hv with
    | head => exact Nat.le_refl _
    | tail _ hv => exact hzs v hv

theorem firstLongest_shorter (h : b.length < x.length) : FirstLongest (b :: x :: xs) u ↔ FirstLongest (x :: xs) u := by
  constructor
  · rintro ⟨- | ⟨a, as⟩, zs, heq, has, hzs⟩
    · cases heq
      exact absurd (hzs x List.mem_cons_self) (Nat.not_le.2 h)
    · exact ⟨as, zs, (List.cons.inj heq).2, fun v hv => has v (List.mem_cons_of_mem _ hv), hzs⟩
  · intro hfirst
    have hlt := Nat.lt_of_lt_of_le h (hfirst.le List.mem_cons_self)
    obtain ⟨as, zs, heq, has, hzs⟩ := hfirst
    exact ⟨b :: as, zs, by rw [heq]; rfl, List.forall_mem_cons.2 ⟨hlt, has⟩, hzs⟩

theorem firstLongest_not_shorter (h : x.length ≤ b.length) :
    FirstLongest (b :: x :: xs) u ↔ FirstLongest (b :: xs) u := by
  constructor
  · rintro ⟨- | ⟨a, - | ⟨a', as⟩⟩, zs, heq, has, hzs⟩
    · cases heq
      exact ⟨[], xs, rfl, nofun, fun v hv => hzs v (List.mem_cons_of_mem _ hv)⟩
    · cases heq
      exact absurd (has b List.mem_cons_self) (Nat.not_lt.2 h)
    · cases heq
      exact ⟨b :: as, zs, rfl, fun v hv => has v (by grind), hzs⟩
  · rintro ⟨- | ⟨a, as⟩, zs, heq, has, hzs⟩
    · cases heq
      exact ⟨[], x :: xs, rfl, nofun, List.forall_mem_cons.2 ⟨h, hzs⟩⟩
    · cases heq
      have hb := has b List.mem_cons_self
      refine ⟨b :: x :: as, zs, rfl, fun v hv => ?_, hzs⟩
      rcases List.mem_cons.1 hv with rfl | hv
      · exact hb
      · rcases List.mem_cons.1 hv with rfl | hv
        · exact Nat.lt_of_le_of_lt h hb
        · exact has v (List.mem_cons_of_mem _ hv)

theorem longest_cons (b : List α) (xs : List (List α)) :
    ∃ u, longest (b :: xs) = some u ∧ FirstLongest (b :: xs) u := by
  unfold longest
  rw [List.foldl_cons]
  induction xs generalizing b with
  | nil => exact ⟨b, rfl, [], [], rfl, nofun, nofun⟩
  | cons x xs ih =>
      rw [List.foldl_cons]
      by_cases hlt : b.length < x.length
      · obtain ⟨u, hu, hfirst⟩ := ih x
        refine ⟨u, ?_, (firstLongest_shorter hlt).2 hfirst⟩
        simpa [hlt] using hu
      · obtain ⟨u, hu, hfirst⟩ := ih b
        refine ⟨u, ?_, (firstLongest_not_shorter (Nat.le_of_not_lt hlt)).2 hfirst⟩
        simpa [hlt] using hu

theorem FirstLongest.unique {u' : List α} (h : FirstLongest xs u) (h' : FirstLongest xs u') : u = u' := by
  obtain ⟨as, zs, rfl, has, hzs⟩ := h
  obtain ⟨as', zs', heq, has', hzs'⟩ := h'
  rcases List.append_eq_append_iff.1 heq with ⟨- | ⟨c, cs⟩, h₁, h₂⟩ | ⟨- | ⟨c, cs⟩, h₁, h₂⟩
  · exact (List.cons.inj h₂).1
  · obtain ⟨rfl, rfl⟩ := List.cons.inj h₂
    have hlt := has' u (by simp [h₁])
    exact absurd (hzs u' (by simp)) (Nat.not_le.2 hlt)
  · exact (List.cons.inj h₂).1.symm
  · obtain ⟨rfl, rfl⟩ := List.cons.inj h₂
    have hlt := has u' (by simp [h₁])
    exact absurd (hzs' u (by simp)) (Nat.not_le.2 hlt)

theorem longest_eq_none : longest xs = none ↔ xs = [] := by
  constructor
  · intro h
    cases xs with
    | nil => rfl
    | cons x xs =>
        obtain ⟨u, hu, -⟩ := longest_cons x xs
        rw [h] at hu
        cases hu
  · rintro rfl
    rfl

theorem longest_iff : longest xs = some u ↔ FirstLongest xs u := by
  cases xs with
  | nil =>
      constructor
      · intro h
        cases h
      · rintro ⟨- | ⟨a, as⟩, zs, heq, -, -⟩ <;> cases heq
  | cons x xs =>
      obtain ⟨u', hu', hfirst⟩ := longest_cons x xs
      constructor
      · intro h
        cases hu'.symm.trans h
        exact hfirst
      · intro h
        rw [hu', hfirst.unique h]

/-- What was found in a part of the output is not the first longest in the whole of it: it has gone on there, a longer
one has come, it is out of sight, or one as long stands before it. -/
inductive Cut (xs : List (List α)) (u : List α) : Prop
  | continued {v : List α} (hv : v ∈ xs) (hon : u <+: v) (hne : u ≠ v)
  | outgrown {v : List α} (hv : v ∈ xs) (hlt : u.length < v.length)
  | gone (h : u ∉ xs)
  | preceded {as zs : List (List α)} {v : List α} (h : xs = as ++ v :: zs) (hlen : v.length = u.length)
      (hno : u ∉ as ++ [v])

theorem Cut.not_firstLongest (h : Cut xs u) : ¬ FirstLongest xs u := fun hfirst => by
  cases h with
  | continued hv hon hne => exact hne (hon.eq_of_length_le (hfirst.le hv))
  | outgrown hv hlt => exact Nat.not_le.2 hlt (hfirst.le hv)
  | gone hno =>
      obtain ⟨as, zs, rfl, -, -⟩ := hfirst
      exact hno (by simp)
  | @preceded as zs v h hlen hno =>
      obtain ⟨as', zs', rfl, has, -⟩ := hfirst
      -- the first occurrence of `u` is after `v`, which is then too long
      rcases List.append_eq_append_iff.1 h with ⟨- | ⟨c, cs⟩, h₁, h₂⟩ | ⟨- | ⟨c, cs⟩, h₁, h₂⟩
      · obtain ⟨rfl, -⟩ := List.cons.inj h₂
        exact hno (by simp)
      · obtain ⟨rfl, -⟩ := List.cons.inj h₂
        exact hno (by simp [h₁])
      · obtain ⟨rfl, -⟩ := List.cons.inj h₂
        exact hno (by simp)
      · obtain ⟨rfl, -⟩ := List.cons.inj h₂
        exact absurd (has v (by simp [h₁])) (by omega)

theorem firstLongest_iff : FirstLongest xs u ↔ ¬ Cut xs u := by
  refine ⟨fun hfirst hcut => hcut.not_firstLongest hfirst, fun hwhole => ?_⟩
  have hmem : u ∈ xs := Classical.byContradiction fun hno => hwhole (.gone hno)
  obtain ⟨v, hfirst⟩ : ∃ v, FirstLongest xs v := by
    cases xs with
    | nil => cases hmem
    | cons x xs => exact (longest_cons x xs).imp fun _ h => h.2
  obtain ⟨as, zs, hxs, has, -⟩ := id hfirst
  have hlen : v.length = u.length := by
    refine Nat.le_antisymm (Nat.le_of_not_lt fun hlt => hwhole (.outgrown ?_ hlt)) (hfirst.le hmem)
    rw [hxs]
    simp
  by_cases heq : v = u
  · exact heq ▸ hfirst
  · refine (hwhole (.preceded hxs hlen fun hu => ?_)).elim
    rcases List.mem_append.1 hu with hu | hu
    · exact absurd (has u hu) (by omega)
    · exact heq (List.mem_singleton.1 hu).symm

theorem FirstLongest.forall_iff {P : List α → Prop} (h : FirstLongest xs u) : (∀ t, FirstLongest xs t → P t) ↔ P u := by
  constructor
  · intro hall
    exact hall u h
  · intro hu t ht
    rw [ht.unique h]
    exact hu

end Longest

/-! ## The URL of a longer output -/

/-- The plain URLs of a text are the first ones of a longer text, except that the last one may go on. -/
theorem plain_grows (cs more : Bytes) :
    plain cs <+: plain (cs ++ more) ∨
      ∃ as x x' zs, plain cs = as ++ [x] ∧ plain (cs ++ more) = as ++ x' :: zs ∧ x <+: x' := by
  have hext : Extends (fun m m' => m.text <+: m'.text) (finditer rawUrl cs) (finditer rawUrl (cs ++ more)) :=
    matchesFrom_extends (fun cs m hm => rawUrl_keeps hm more) (fun cs => rawUrl_late) 0 cs
  unfold plain
  generalize finditer rawUrl cs = ms at hext
  generalize finditer rawUrl (cs ++ more) = ms' at hext
  induction hext with
  | nil ms => exact .inl List.nil_prefix
  | cons m _ ih =>
      rw [List.map_cons, List.map_cons, List.filter_cons, List.filter_cons]
      split
      · rcases ih with hprefix | ⟨as, x, x', zs, hx, hx', hle⟩
        · exact .inl (List.cons_prefix_cons.2 ⟨rfl, hprefix⟩)
        · exact .inr ⟨m.text :: as, x, x', zs, by rw [hx]; rfl, by rw [hx']; rfl, hle⟩
      · exact ih
  | @last m m' ms hr =>
      rw [List.map_cons, List.map_cons, List.filter_cons, List.filter_cons]
      by_cases hstate : isIn stateKey m.text = true
      · have hstate' : isIn stateKey m'.text = true :=
          (isIn_iff (by decide)).2 (((isIn_iff (by decide)).1 hstate).trans hr.isInfix)
        rw [if_pos hstate, if_pos hstate']
        exact .inr ⟨[], m.text, m'.text, _, rfl, rfl, hr⟩
      · rw [if_neg hstate]
        exact .inl List.nil_prefix

/-- A URL that is the longest stays it, if no longer one comes. -/
theorem firstLongest_grows {u : Bytes} (more : Bytes) (h : FirstLongest (plain cs) u)
    (hle : ∀ v ∈ plain (cs ++ more), v.length ≤ u.length) : FirstLongest (plain (cs ++ more)) u := by
  have hrest : ∀ as zs : List Bytes, plain (cs ++ more) = as ++ u :: zs → (∀ v ∈ as, v.length < u.length) →
      FirstLongest (plain (cs ++ more)) u := fun as zs heq has =>
    ⟨as, zs, heq, has, fun v hv => hle v (by rw [heq]; simp [hv])⟩
  obtain ⟨as, zs, heq, has, -⟩ := h
  rcases plain_grows cs more with ⟨ws, hws⟩ | ⟨bs, x, x', ws, hx, hx', hxx⟩
  · refine hrest _ (zs ++ ws) ?_ has
    rw [← hws, heq]
    simp
  · rcases List.eq_nil_or_concat zs with rfl | ⟨zs', z, rfl⟩
    · obtain ⟨rfl, hux⟩ := List.append_inj' (heq.symm.trans hx) rfl
      cases hux
      have hmem : x' ∈ plain (cs ++ more) := by
        rw [hx']
        simp
      obtain rfl := hxx.eq_of_length_le (hle x' hmem)
      exact hrest _ _ hx' has
    · have hcut : plain cs = (as ++ u :: zs') ++ [z] := by
        rw [heq]
        simp
      obtain ⟨rfl, -⟩ := List.append_inj' (hcut.symm.trans hx) rfl
      refine hrest _ (zs' ++ x' :: ws) ?_ has
      rw [hx']
      simp

end Sidecar
