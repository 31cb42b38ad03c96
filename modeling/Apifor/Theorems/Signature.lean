import Apifor.Http.Stripe
import Apifor.Lib.FlatJson

/-!
# The signature of a webhook

`VerifyWebhook` against `Sign`. The header parser takes the last timestamp and every tag it finds, so that
what stands beside the parts of a signature does not matter; and a timestamp that `ParseInt` accepts has no
dot, so that the text under a tag can be cut in one way only.
-/

namespace Apifor

namespace Stripe

variable {hmac : String → List UInt8 → List UInt8} {payload : List UInt8} {header secret : String} {ts : Int64}
  {tolerance : Int} {now : Time}

/-! ## Numbers and tags as text -/

theorem toList_toString_ofNat (n : Nat) : (toString (Int.ofNat n)).toList = Nat.toDigits 10 n := by
  simp [Int.toString_eq_repr, Int.repr, Nat.toList_repr]

theorem toList_toString_negSucc (n : Nat) : (toString (Int.negSucc n)).toList = '-' :: Nat.toDigits 10 (n + 1) := by
  simp [Int.toString_eq_repr, Int.repr, Nat.toList_repr]

theorem decimal_digits (i : Int) : ∀ c ∈ (toString i).toList, c = '-' ∨ c.isDigit = true := by
  intro c hc
  cases i with
  | ofNat n =>
      rw [toList_toString_ofNat] at hc
      exact .inr (Nat.isDigit_of_mem_toDigits (by decide) (by decide) hc)
  | negSucc n =>
      rw [toList_toString_negSucc] at hc
      rcases List.mem_cons.1 hc with rfl | hc
      · exact .inl rfl
      · exact .inr (Nat.isDigit_of_mem_toDigits (by decide) (by decide) hc)

theorem digit_of_isDigit {c : Char} (h : c.isDigit = true) : ('0' ≤ c && c ≤ '9') = true := by
  simpa [Char.isDigit, Char.le_def] using h

theorem all_toDigits (n : Nat) : ((Nat.toDigits 10 n).all fun c => '0' ≤ c && c ≤ '9') = true :=
  List.all_eq_true.2 fun _ hc => digit_of_isDigit (Nat.isDigit_of_mem_toDigits (by decide) (by decide) hc)

theorem foldl_toDigits (n : Nat) :
    (Nat.toDigits 10 n).foldl (fun (m : Nat) c => m * 10 + (c.toNat - 48)) 0 = n := by
  have h := Nat.ofDigitChars_ten_toDigits (n := n)
  rw [Nat.ofDigitChars_eq_foldl] at h
  simpa [Nat.mul_comm] using h

theorem not_dash (n : Nat) (cs : List Char) : Nat.toDigits 10 n ≠ '-' :: cs := by
  intro h
  have hdash := Nat.isDigit_of_mem_toDigits (b := 10) (n := n) (c := '-') (by decide) (by decide) (by simp [h])
  exact absurd hdash (by decide)

/-- Every timestamp is read back from its decimal text. -/
theorem int64?_decimal (ts : Int64) : Json.int64? (toString ts.toInt) = some ts.toInt := by
  have hlt : ts.toInt < 9223372036854775808 := ts.toInt_lt
  have hge : -9223372036854775808 ≤ ts.toInt := ts.le_toInt
  have hne : ∀ n, (Nat.toDigits 10 n).isEmpty = false := by simp
  unfold Json.int64?
  cases hi : ts.toInt with
  | ofNat n =>
      rw [hi] at hlt hge
      rw [toList_toString_ofNat]
      split
      · next cs hcs => exact absurd hcs (not_dash n cs)
      · simp only [all_toDigits, foldl_toDigits, hne, Bool.not_false, Bool.and_self, if_true]
        exact if_pos ⟨hge, Int.le_of_lt_add_one hlt⟩
  | negSucc n =>
      rw [hi] at hlt hge
      simp only [toList_toString_negSucc, all_toDigits, foldl_toDigits, hne, Bool.not_false, Bool.and_self, if_true]
      exact if_pos ⟨hge, Int.le_of_lt_add_one hlt⟩

theorem parseInt_decimal (ts : Int64) : parseInt (toString ts.toInt) = some ts.toInt := by
  unfold parseInt
  split
  · next c cs hcs =>
      have hplus := decimal_digits ts.toInt '+' (hcs ▸ List.mem_cons_self)
      exact absurd hplus (by decide)
  · exact int64?_decimal ts

theorem dot_notMem_int64 {s : String} {n : Int} (h : Json.int64? s = some n) : '.' ∉ s.toList := by
  have hgo : ∀ cs : List Char, ((cs.all fun c => '0' ≤ c && c ≤ '9') && !cs.isEmpty) = true → '.' ∉ cs := by
    intro cs hall hmem
    exact absurd (List.all_eq_true.1 (Bool.and_eq_true_iff.1 hall).1 '.' hmem) (by decide)
  unfold Json.int64? at h
  dsimp only at h
  split at h
  · next v hv =>
      split at hv
      · next cs hcs =>
          split_ifs at hv with hall
          · rw [hcs]
            simpa using hgo cs hall
          · cases hv
      · split_ifs at hv with hall
        · exact hgo _ hall
        · cases hv
  · cases h

/-- No timestamp that parses has a dot. -/
theorem dot_notMem {s : String} {n : Int} (h : parseInt s = some n) : '.' ∉ s.toList := by
  unfold parseInt at h
  split at h
  · next c cs hcs =>
      split_ifs at h
      have hrest := dot_notMem_int64 h
      rw [hcs]
      simpa using hrest
  · exact dot_notMem_int64 h

theorem hexBytes_hexText (tag : List UInt8) : hexBytes (hexText tag).toList = some tag := by
  rw [hexText, String.toList_ofList]
  induction tag with
  | nil => rfl
  | cons b tag ih =>
      have hb := b.toNat_lt
      have hhi := FlatJson.hexVal_hexDigit (b.toNat / 16) (by omega)
      have hlo := FlatJson.hexVal_hexDigit (b.toNat % 16) (by omega)
      have hbyte : UInt8.ofNat (b.toNat / 16 * 16 + b.toNat % 16) = b := by
        rw [Nat.div_add_mod']
        exact UInt8.ofNat_toNat
      simpa [hexBytes, hhi, hlo, ih] using hbyte

/-! ## The header -/

/-- The key of a part, as the parser sees it. -/
def keyOf (part : String) : Option String := (Text.cut (Text.trimSpace part) '=').map (·.1)

variable {h : SigHeader} {part v : String} {parts : List String}

/-- If all timestamps of a header are the same, it is the one that is taken. -/
theorem ts_of_parts (hall : ∀ p ∈ parts, ∀ v', Text.cut (Text.trimSpace p) '=' = some ("t", v') → v' = v)
    (hsome : h.ts = v ∨ ∃ p ∈ parts, keyOf p = some "t") : (parts.foldl sigPart h).ts = v := by
  induction parts generalizing h with
  | nil =>
      rcases hsome with hts | ⟨p, hp, -⟩
      · exact hts
      · cases hp
  | cons p parts ih =>
      have hrest : ∀ q ∈ parts, ∀ v', Text.cut (Text.trimSpace q) '=' = some ("t", v') → v' = v := fun q hq =>
        hall q (List.mem_cons_of_mem p hq)
      rw [List.foldl_cons]
      refine ih hrest ?_
      cases hcut : Text.cut (Text.trimSpace p) '=' with
      | none =>
          rcases hsome with hts | ⟨q, hq, hkey⟩
          · exact .inl (by simpa [sigPart, hcut] using hts)
          · rcases List.mem_cons.1 hq with rfl | hq
            · simp [keyOf, hcut] at hkey
            · exact .inr ⟨q, hq, hkey⟩
      | some kv =>
          obtain ⟨k, v'⟩ := kv
          by_cases hk : k = "t"
          · subst hk
            exact .inl (by simpa [sigPart, hcut] using hall p List.mem_cons_self v' hcut)
          · rcases hsome with hts | ⟨q, hq, hkey⟩
            · refine .inl ?_
              simp only [sigPart, hcut, hk, if_false]
              split <;> exact hts
            · rcases List.mem_cons.1 hq with rfl | hq
              · exact absurd (by simpa [keyOf, hcut] using hkey) hk
              · exact .inr ⟨q, hq, hkey⟩

/-- Every tag of a header is kept. -/
theorem mem_v1s : v ∈ (parts.foldl sigPart h).v1s ↔
    v ∈ h.v1s ∨ ∃ p ∈ parts, Text.cut (Text.trimSpace p) '=' = some ("v1", v) := by
  induction parts generalizing h with
  | nil => simp
  | cons p parts ih =>
      rw [List.foldl_cons, ih]
      have hhead : v ∈ (sigPart h p).v1s ↔ v ∈ h.v1s ∨ Text.cut (Text.trimSpace p) '=' = some ("v1", v) := by
        cases hcut : Text.cut (Text.trimSpace p) '=' with
        | none => simp [sigPart, hcut]
        | some kv =>
            obtain ⟨k, v'⟩ := kv
            by_cases ht : k = "t"
            · subst ht
              simp [sigPart, hcut]
            · by_cases hv1 : k = "v1"
              · subst hv1
                simp [sigPart, hcut, eq_comm]
              · simp [sigPart, hcut, ht, hv1]
      simp [hhead, or_assoc]

/-! ## The parts that `Sign` produces -/

/-- The characters of decimal and hexadecimal numbers. -/
def Numeric (c : Char) : Prop := Text.isSpace c = false ∧ c ≠ ',' ∧ c ≠ '='

theorem numeric_decimal (i : Int) : ∀ c ∈ (toString i).toList, Numeric c := by
  have hdigits : ∀ n < 10, Numeric (Char.ofNat (48 + n)) := by
    unfold Numeric
    decide
  intro c hc
  rcases decimal_digits i c hc with rfl | hdigit
  · exact ⟨by decide, by decide, by decide⟩
  · have hrange : 48 ≤ c.toNat ∧ c.toNat ≤ 57 := by
      simpa [Char.isDigit, UInt32.le_iff_toNat_le] using hdigit
    have hnum := hdigits (c.toNat - 48) (by omega)
    rwa [Nat.add_sub_cancel' hrange.1, Char.ofNat_toNat] at hnum

theorem numeric_hexText (tag : List UInt8) : ∀ c ∈ (hexText tag).toList, Numeric c := by
  have hdigit : ∀ n < 16, Numeric (Json.hexDigit n) := by
    unfold Numeric
    decide
  intro c hc
  rw [hexText, String.toList_ofList] at hc
  obtain ⟨b, -, hb⟩ := List.mem_flatMap.1 hc
  have hlt := b.toNat_lt
  simp only [List.mem_cons, List.not_mem_nil, or_false] at hb
  rcases hb with rfl | rfl
  · exact hdigit _ (by omega)
  · exact hdigit _ (by omega)

/-- A part of a number under a short key is split and cut as it was put together. -/
theorem split_parts {t v1 : String} (ht : ∀ c ∈ t.toList, Numeric c) (hv : ∀ c ∈ v1.toList, Numeric c) :
    Text.split ("t=" ++ t ++ ",v1=" ++ v1) ',' = ["t=" ++ t, "v1=" ++ v1] := by
  have hlist : ("t=" ++ t ++ ",v1=" ++ v1).toList = ("t=" ++ t).toList ++ ',' :: ("v1=" ++ v1).toList := by
    simp
  have hnot : ∀ (k n : String), ',' ∉ k.toList → (∀ c ∈ n.toList, Numeric c) → ',' ∉ (k ++ n).toList := by
    intro k n hk hn hmem
    rw [String.toList_append, List.mem_append] at hmem
    exact hmem.elim hk fun h => (hn _ h).2.1 rfl
  rw [Text.split, hlist, Text.splitChars_append_sep, Text.splitChars_of_notMem (hnot _ _ (by decide) ht),
    Text.splitChars_of_notMem (hnot _ _ (by decide) hv)]
  simp only [List.singleton_append, List.map_cons, List.map_nil, String.ofList_toList]

theorem cut_part {k n : String} (hk : ∀ c ∈ k.toList, Numeric c) (hn : ∀ c ∈ n.toList, Numeric c) :
    Text.cut (Text.trimSpace (k ++ "=" ++ n)) '=' = some (k, n) := by
  have hlist : (k ++ "=" ++ n).toList = k.toList ++ '=' :: n.toList := by simp
  have hblank : ∀ c ∈ k.toList ++ '=' :: n.toList, Text.isSpace c = false := by
    intro c hc
    rcases List.mem_append.1 hc with hc | hc
    · exact (hk c hc).1
    · rcases List.mem_cons.1 hc with rfl | hc
      · decide
      · exact (hn c hc).1
  have heq : '=' ∉ k.toList := fun h => (hk _ h).2.2 rfl
  rw [Text.trimSpace, Text.cut, String.toList_ofList, hlist, Text.trimChars_of_forall hblank, Text.cutChars_append heq]
  simp

theorem split_sign (hmac : String → List UInt8 → List UInt8) (payload : List UInt8) (secret : String) (ts : Int64) :
    Text.split (sign hmac payload secret ts) ',' =
      ["t=" ++ toString ts.toInt, "v1=" ++ hexText (hmac secret (signedBytes payload ts))] :=
  split_parts (numeric_decimal ts.toInt) (numeric_hexText _)

/-! ## Verification -/

/-- The tags that a header carries. -/
def tagsIn (header : String) : List (List UInt8) := (sigHeader header).v1s.filterMap fun v => hexBytes v.toList

/-- The header has the parts that `Sign` gives, among others that are no timestamps. -/
structure Carries (hmac : String → List UInt8 → List UInt8) (payload : List UInt8) (secret : String) (ts : Int64)
    (header : String) : Prop where
  parts : ∀ p ∈ Text.split (sign hmac payload secret ts) ',', p ∈ Text.split header ','
  others : ∀ p ∈ Text.split header ',', p ∈ Text.split (sign hmac payload secret ts) ',' ∨ keyOf p ≠ some "t"

theorem cut_ts (ts : Int64) : Text.cut (Text.trimSpace ("t=" ++ toString ts.toInt)) '=' = some ("t", toString ts.toInt) := by
  have hkey : ("t=" : String) = "t" ++ "=" := rfl
  have hnumeric : ∀ c ∈ ("t" : String).toList, Numeric c := by simp [Numeric, Text.isSpace]
  rw [hkey]
  exact cut_part hnumeric (numeric_decimal ts.toInt)

theorem cut_tag (tag : List UInt8) : Text.cut (Text.trimSpace ("v1=" ++ hexText tag)) '=' = some ("v1", hexText tag) := by
  have hkey : ("v1=" : String) = "v1" ++ "=" := rfl
  have hnumeric : ∀ c ∈ ("v1" : String).toList, Numeric c := by simp [Numeric, Text.isSpace]
  rw [hkey]
  exact cut_part hnumeric (numeric_hexText tag)

theorem Carries.timestamp (h : Carries hmac payload secret ts header) : (sigHeader header).ts = toString ts.toInt := by
  have hparts := h.parts
  have hothers := h.others
  rw [split_sign] at hparts hothers
  refine ts_of_parts (fun p hp v' hv' => ?_) (.inr ⟨_, hparts _ List.mem_cons_self, ?_⟩)
  · rcases hothers p hp with hmem | hkey
    · simp only [List.mem_cons, List.not_mem_nil, or_false] at hmem
      rcases hmem with rfl | rfl
      · rw [cut_ts] at hv'
        cases hv'
        rfl
      · rw [cut_tag] at hv'
        simp at hv'
    · exact absurd (by rw [keyOf, hv']; rfl) hkey
  · rw [keyOf, cut_ts]
    rfl

theorem Carries.tag (h : Carries hmac payload secret ts header) :
    hexText (hmac secret (signedBytes payload ts)) ∈ (sigHeader header).v1s := by
  have hparts := h.parts
  rw [split_sign] at hparts
  exact mem_v1s.2 (.inr ⟨_, hparts _ (List.mem_cons_of_mem _ List.mem_cons_self), cut_tag _⟩)

/-- A header with the parts of a signature of the payload is accepted as long as its timestamp is. -/
theorem verify_carries (hsecret : secret ≠ "") (htol : 0 < tolerance)
    (hnow : -tolerance ≤ now - ts.toInt * second ∧ now - ts.toInt * second ≤ tolerance)
    (h : Carries hmac payload secret ts header) : verifyWebhook hmac payload header secret tolerance now = .ok () := by
  have hts := h.timestamp
  have htag := h.tag
  have hdecimal : toString ts.toInt ≠ "" := by
    intro hempty
    have hparse := parseInt_decimal ts
    rw [hempty] at hparse
    cases hparse
  have hv1s : (sigHeader header).v1s ≠ [] := List.ne_nil_of_mem htag
  have hsigned : ((sigHeader header).v1s.any fun v =>
      decide (hexBytes v.toList = some (hmac secret (Utf8.encode (toString ts.toInt ++ ".") ++ payload)))) = true :=
    List.any_eq_true.2 ⟨_, htag, decide_eq_true (hexBytes_hexText _)⟩
  have hrange : ¬ (now - ts.toInt * second > tolerance ∨ now - ts.toInt * second < -tolerance) :=
    fun hout => hout.elim (Int.not_lt.2 hnow.2) (Int.not_lt.2 hnow.1)
  unfold verifyWebhook
  simp only [hts, hsecret, hdecimal, hv1s, or_self, if_false, hsigned, if_true, gt_iff_lt, htol, parseInt_decimal]
  exact if_neg hrange

/-- An accepted header has a timestamp that parses, and the tag of the payload at that timestamp. -/
theorem verify_ok (htol : 0 < tolerance) (hok : verifyWebhook hmac payload header secret tolerance now = .ok ()) :
    (∃ n, parseInt (sigHeader header).ts = some n) ∧
      hmac secret (Utf8.encode ((sigHeader header).ts ++ ".") ++ payload) ∈ tagsIn header := by
  unfold verifyWebhook at hok
  cases hparse : parseInt (sigHeader header).ts with
  | none =>
      simp only [hparse, gt_iff_lt, htol, if_true] at hok
      split_ifs at hok
  | some n =>
      refine ⟨⟨n, rfl⟩, ?_⟩
      simp only [hparse, gt_iff_lt, htol, if_true] at hok
      split_ifs at hok with _ _ _ hsigned
      obtain ⟨v, hv, htag⟩ := List.any_eq_true.1 hsigned
      exact List.mem_filterMap.2 ⟨v, hv, of_decide_eq_true htag⟩

/-- A text without dots before a dot can be told from what follows. -/
theorem signedBytes_inj {s : String} (hdot : '.' ∉ s.toList) {p : List UInt8}
    (h : Utf8.encode (s ++ ".") ++ payload = signedBytes p ts) : payload = p ∧ s = toString ts.toInt := by
  have hdecimal : '.' ∉ (toString ts.toInt).toList := fun hmem => by
    rcases decimal_digits _ _ hmem with hd | hd <;> exact absurd hd (by decide)
  have hdots : Utf8.encode "." = [46] := by decide +kernel
  have hhead : ∀ {t : String} {q : List UInt8}, '.' ∉ t.toList →
      (Utf8.encode t ++ 46 :: q).takeWhile (· ≠ 46) = Utf8.encode t := fun {t q} ht => by
    rw [List.takeWhile_append_of_pos, List.takeWhile_cons_of_neg (by decide), List.append_nil]
    intro b hb
    refine decide_eq_true fun hb46 => ht (Utf8.mem_of_mem_encode (d := '.') (by decide) ?_)
    rw [hb46] at hb
    exact hb
  have hbytes : Utf8.encode s ++ 46 :: payload = Utf8.encode (toString ts.toInt) ++ 46 :: p := by
    simpa [signedBytes, hdots] using h
  have hs := congrArg (List.takeWhile (· ≠ 46)) hbytes
  rw [hhead hdot, hhead hdecimal] at hs
  rw [hs, List.append_cancel_left_eq, List.cons_inj_right] at hbytes
  exact ⟨hbytes, Utf8.encode_injective hs⟩

/-- The check is complete for the headers that carry a signature of the payload, and sound when the only tags of
the secret in a header are signatures of `signed` texts. -/
theorem verify_signed (hsecret : secret ≠ "") (htol : 0 < tolerance) (hinj : Function.Injective (hmac secret)) :
    (∀ payload ts header now, -tolerance ≤ now - ts.toInt * second ∧ now - ts.toInt * second ≤ tolerance →
        Carries hmac payload secret ts header → verifyWebhook hmac payload header secret tolerance now = .ok ()) ∧
      ∀ payload header now (signed : Set (List UInt8 × Int64)),
        (∀ m, hmac secret m ∈ tagsIn header → ∃ q ∈ signed, hmac secret m = hmac secret (signedBytes q.1 q.2)) →
        verifyWebhook hmac payload header secret tolerance now = .ok () →
        ∃ ts, (payload, ts) ∈ signed ∧ parseInt (sigHeader header).ts = some ts.toInt := by
  refine ⟨fun payload ts header now hnow h => verify_carries hsecret htol hnow h, ?_⟩
  intro payload header now signed honly hok
  obtain ⟨⟨n, hn⟩, htag⟩ := verify_ok htol hok
  obtain ⟨⟨p, ts⟩, hq, heq⟩ := honly _ htag
  obtain ⟨rfl, hts⟩ := signedBytes_inj (dot_notMem hn) (hinj heq)
  refine ⟨ts, hq, ?_⟩
  rw [hts]
  exact parseInt_decimal ts

end Stripe

/-! ## A header with a wrong tag -/

namespace Sample

/-- Bytes that tell every message from every other. -/
def tagOf (_ : String) (bytes : List UInt8) : List UInt8 := bytes

def pay : List UInt8 := Utf8.encode "pay"

def tagged : String := " v1=zz ,t=5, noise,v1=" ++ Stripe.hexText (tagOf "k" (Stripe.signedBytes pay 5))

end Sample

namespace Stripe

theorem carries_tagged : Carries Sample.tagOf Sample.pay "k" 5 Sample.tagged where
  parts := by decide +kernel
  others := by decide +kernel

theorem tagsIn_tagged : tagsIn Sample.tagged = [Sample.tagOf "k" (signedBytes Sample.pay 5)] := by decide +kernel

theorem verify_signed_sample :
    verifyWebhook Sample.tagOf Sample.pay Sample.tagged "k" 300 (5 * second) = .ok () ∧
      ∃ ts : Int64, (Sample.pay, ts) ∈ ({(Sample.pay, 5)} : Set (List UInt8 × Int64)) ∧
        parseInt (sigHeader Sample.tagged).ts = some ts.toInt := by
  have hsecret : "k" ≠ "" := by decide
  have htol : (0 : Int) < 300 := by decide
  have hinj : Function.Injective (Sample.tagOf "k") := fun _ _ h => h
  have hchecks := verify_signed hsecret htol hinj
  have hok := hchecks.1 Sample.pay 5 Sample.tagged (5 * second) (by decide) carries_tagged
  refine ⟨hok, hchecks.2 Sample.pay Sample.tagged (5 * second) {(Sample.pay, 5)} (fun m hm => ?_) hok⟩
  rw [tagsIn_tagged, List.mem_singleton] at hm
  exact ⟨(Sample.pay, 5), rfl, hm⟩

end Stripe

end Apifor
