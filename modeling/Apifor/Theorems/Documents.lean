import Apifor.Executor.Ipc
import Apifor.Executor.Relay

/-!
# Documents of the knowledge base

Where the requests to import documents write, and which of the documents can be told apart afterwards.
-/

namespace Executor

namespace Ipc

variable {c : Crates} {g : Vault.Grain} {v : Vault} {token : String} {m m' : Machine c} {call : Call} {conn : Nat}

/-! ## Requests to import -/

structure Doc where
  name : String
  content : String
deriving DecidableEq

/-- The document that a request asks to import. -/
def document (c : Crates) (token : String) (call : Call) : Option Doc :=
  match c.fromStr call.line with
  | .error _ => none
  | .ok req =>
      if authorized req token = true ∧ Value.strOr req "cmd" "" = "kb.import" ∧ Value.strOr req "name" "" ≠ "" ∧
          Value.strOr req "content" "" ≠ "" then
        some ⟨Value.strOr req "name" "", Value.strOr req "content" ""⟩
      else none

def fileRef (c : Crates) (name : String) : String := "kb/" ++ safeName c name

/-- The answer that a document was imported. -/
def importedAs (c : Crates) (d : Doc) (registered : Bool) : Json :=
  .obj [("ok", .bool true), ("file_ref", .str (fileRef c d.name)), ("registered", .bool registered)]

/-- The document that a request imports. -/
def imported (c : Crates) (token : String) (call : Call) : Option Doc :=
  if blankLine call then none else (document c token call).filter fun d => writable (safeName c d.name)

def store (c : Crates) (kb : SortedMap String String) (d : Doc) : SortedMap String String :=
  kb.insert (safeName c d.name) d.content

/-- A request imports its document and says so, or writes no document. -/
inductive Imports (c : Crates) (token : String) (call : Call) (m m' : Machine c) (r : Json) : Prop
  | document (d : Doc) (h : document c token call = some d) (hw : writable (safeName c d.name) = true)
      (hkb : m'.kb = store c m.kb d) (hr : r = importedAs c d call.registered)
  | refused (d : Doc) (h : Ipc.document c token call = some d) (hw : writable (safeName c d.name) = false)
      (hkb : m'.kb = m.kb) (hr : r = failure "falha ao gravar KB local")
  | other (h : Ipc.document c token call = none) (hkb : m'.kb = m.kb)

theorem run_put_kb (nonce : Nonce) (name value kind : String) (m : Machine c) :
    ∃ m' r, (v.put g nonce name value kind).run m = (m', some r) ∧ m'.kb = m.kb ∧ m'.answers = m.answers := by
  unfold Vault.put
  cases c.encrypt v.key nonce (utf8 value) with
  | error e => exact ⟨_, _, rfl, rfl, rfl⟩
  | ok ct => cases g <;> exact ⟨_, _, rfl, rfl, rfl⟩

theorem run_delete_kb (name : String) (m : Machine c) :
    ∃ m' r, (Vault.delete g name).run m = (m', some r) ∧ m'.kb = m.kb ∧ m'.answers = m.answers := by
  cases g <;> exact ⟨_, _, rfl, rfl, rfl⟩

theorem document_none {req : Json} (hreq : c.fromStr call.line = .ok req)
    (h : ¬ (authorized req token = true ∧ Value.strOr req "cmd" "" = "kb.import" ∧ Value.strOr req "name" "" ≠ "" ∧
      Value.strOr req "content" "" ≠ "")) : document c token call = none := by
  simp only [document, hreq, if_neg h]

theorem run_dispatch (g : Vault.Grain) (v : Vault) (token : String) (call : Call) (m : Machine c) :
    ∃ m' r, (dispatch g v token call).run m = (m', some r) ∧ m'.answers = m.answers ∧ Imports c token call m m' r := by
  unfold dispatch
  cases hreq : c.fromStr call.line with
  | error e => exact ⟨m, _, rfl, rfl, .other (by simp only [document, hreq]) rfl⟩
  | ok req =>
      dsimp only
      by_cases hauth : authorized req token = true
      · rw [if_neg (by simp [hauth])]
        split
        · next hcmd =>
            have hnone : document c token call = none := document_none hreq fun h => by rw [hcmd] at h; exact absurd h.2.1 (by decide)
            split
            · exact ⟨m, _, rfl, rfl, .other hnone rfl⟩
            · obtain ⟨m', r, hrun, hkb, hans⟩ := run_put_kb (g := g) (v := v) call.nonce (Value.strOr req "name" "")
                (Value.strOr req "value" "") (Value.strOr req "kind" "api_key") m
              rw [Prog.bind_def, Prog.run_bind_of_eq hrun]
              cases r <;> exact ⟨m', _, rfl, hans, .other hnone hkb⟩
        · next hcmd =>
            have hnone : document c token call = none := document_none hreq fun h => by rw [hcmd] at h; exact absurd h.2.1 (by decide)
            obtain ⟨m', r, hrun, hkb, hans⟩ := run_delete_kb (g := g) (Value.strOr req "name" "") m
            rw [Prog.bind_def, Prog.run_bind_of_eq hrun]
            cases r <;> exact ⟨m', _, rfl, hans, .other hnone hkb⟩
        · next hcmd =>
            split
            · next hempty =>
                exact ⟨m, _, rfl, rfl, .other (document_none hreq fun h => hempty.elim h.2.2.1 h.2.2.2) rfl⟩
            · next hfull =>
                rw [not_or] at hfull
                have hdoc : document c token call = some ⟨Value.strOr req "name" "", Value.strOr req "content" ""⟩ := by
                  simp only [document, hreq]
                  exact if_pos ⟨hauth, hcmd, hfull.1, hfull.2⟩
                cases hw : writable (safeName c (Value.strOr req "name" "")) with
                | true =>
                    refine ⟨{ m with kb := store c m.kb ⟨Value.strOr req "name" "", Value.strOr req "content" ""⟩ }, _, ?_, rfl,
                      .document _ hdoc hw rfl rfl⟩
                    simp only [writeKb, Prog.bind_def, Prog.run_bind, Prog.run_attempt, Prog.settle, hw, if_true]
                    rfl
                | false =>
                    refine ⟨m, _, ?_, rfl, .refused _ hdoc hw rfl rfl⟩
                    simp only [writeKb, Prog.bind_def, Prog.run_bind, Prog.run_attempt, Prog.settle, hw, Bool.false_eq_true,
                      if_false]
                    rfl
        · next hcmd =>
            exact ⟨m, _, rfl, rfl, .other (document_none hreq fun h => by rw [hcmd] at h; exact absurd h.2.1 (by decide)) rfl⟩
        · next hcmd =>
            exact ⟨m, _, rfl, rfl, .other (document_none hreq fun h => by rw [hcmd] at h; exact absurd h.2.1 (by decide)) rfl⟩
        · next hput hdel hkb hst hds =>
            exact ⟨m, _, rfl, rfl, .other (document_none hreq fun h => hkb h.2.1) rfl⟩
      · rw [if_pos (by simpa using hauth)]
        exact ⟨m, _, rfl, rfl, .other (document_none hreq fun h => hauth h.1) rfl⟩

/-! ## A sequence of requests -/

def imports (c : Crates) (token : String) (calls : List Call) : List Doc := calls.filterMap (imported c token)

def served (calls : List Call) : List Call := calls.filter fun call => !blankLine call

/-- The document of a request, and the reference under which the answer says that it was filed. -/
def registration (c : Crates) (token : String) (call : Call) (r : Json) : Option (Doc × String) :=
  match document c token call, Value.get r "ok", Value.get r "file_ref" with
  | some d, some (.bool true), some (.str ref) => some (d, ref)
  | _, _, _ => none

def registrations (c : Crates) (token : String) (calls : List Call) (rs : List Json) : List (Doc × String) :=
  ((served calls).zip rs).filterMap fun x => registration c token x.1 x.2

theorem registration_of_imports (hb : blankLine call = false) {r : Json} (h : Imports c token call m m' r) :
    registration c token call r = (imported c token call).map (fun d => (d, fileRef c d.name)) ∧
      m'.kb = (imported c token call).toList.foldl (store c) m.kb := by
  unfold registration imported
  rw [hb, if_neg (by simp)]
  cases h with
  | document d hd hw hkb hr =>
      rw [hd, hr, Option.filter_some_pos (by exact hw)]
      exact ⟨rfl, hkb⟩
  | refused d hd hw hkb hr =>
      rw [hd, hr, Option.filter_some_neg (by simp [hw])]
      exact ⟨rfl, hkb⟩
  | other hd hkb =>
      rw [hd]
      exact ⟨rfl, hkb⟩

theorem run_requests (g : Vault.Grain) (v : Vault) (token : String) (conn : Nat) (calls : List Call) (m : Machine c) :
    ∃ m' rs, (handle g v token conn calls).run m = (m', some ()) ∧ m'.answers = m.answers ++ rs.map (conn, ·) ∧
      m'.kb = (imports c token calls).foldl (store c) m.kb ∧
      registrations c token calls rs = (imports c token calls).map fun d => (d, fileRef c d.name) := by
  induction calls generalizing m with
  | nil => exact ⟨m, [], rfl, (List.append_nil _).symm, rfl, rfl⟩
  | cons call calls ih =>
      cases hb : blankLine call with
      | true =>
          obtain ⟨m', rs, hrun, hans, hkb, hreg⟩ := ih m
          have himp : imports c token (call :: calls) = imports c token calls :=
            List.filterMap_cons_none (by rw [imported, hb, if_pos rfl])
          have hserved : served (call :: calls) = served calls := List.filter_cons_of_neg (by simp [hb])
          refine ⟨m', rs, ?_, hans, himp ▸ hkb, ?_⟩
          · rw [handle, if_pos hb]
            exact hrun
          · rw [himp, ← hreg, registrations, hserved]
            rfl
      | false =>
          obtain ⟨m1, r, hrun1, hans1, hone⟩ := run_dispatch g v token call m
          obtain ⟨hreg1, hkb1⟩ := registration_of_imports hb hone
          obtain ⟨m', rs, hrun, hans, hkb, hreg⟩ := ih { m1 with answers := m1.answers ++ [(conn, r)] }
          have himp : imports c token (call :: calls) = (imported c token call).toList ++ imports c token calls := by
            rw [imports, List.filterMap_cons]
            cases imported c token call <;> rfl
          have hserved : served (call :: calls) = call :: served calls := List.filter_cons_of_pos (by simp [hb])
          refine ⟨m', r :: rs, ?_, ?_, ?_, ?_⟩
          · rw [handle, if_neg (by simp [hb]), Prog.bind_def, Prog.run_bind_of_eq hrun1]
            exact hrun
          · rw [hans, hans1, List.map_cons, List.append_assoc]
            rfl
          · rw [hkb, himp, List.foldl_append, ← hkb1]
          · rw [registrations, hserved, List.zip_cons_cons, List.filterMap_cons, himp, List.map_append, ← hreg]
            dsimp only
            rw [hreg1]
            cases imported c token call <;> rfl

/-! ## Where the documents are written -/

theorem slash_notMem (hc : c.isAlphanumeric '/' = false) (name : String) : '/' ∉ (safeName c name).toList := by
  rw [safeName, String.toList_ofList, List.mem_filter]
  rintro ⟨-, h⟩
  rw [hc] at h
  exact absurd h (by decide)

theorem inside_safeName (hc : c.isAlphanumeric '/' = false) {name : String} (hw : writable (safeName c name) = true)
    (dir : String) : Path.Inside dir (joinPath dir (safeName c name)) := by
  have hslash := slash_notMem hc name
  simp only [writable, List.contains_cons, List.contains_nil, Bool.or_false, Bool.and_eq_true, Bool.not_eq_true',
    Bool.or_eq_false_iff, beq_eq_false_iff_ne] at hw
  obtain ⟨⟨hne, hdot, hdots⟩, -⟩ := hw
  have habs := Path.isAbsolute_of_notMem hslash
  refine ⟨isAbsolute_joinPath habs, (safeName c name).toList, ?_, fun he => hdots (String.toList_inj.1 he)⟩
  rw [names_joinPath habs, Path.names_of_notMem hslash hne hdot]

theorem get?_foldl_store_of_notMem {f : String} (ds : List Doc) (kb : SortedMap String String)
    (h : ∀ d ∈ ds, safeName c d.name ≠ f) : (ds.foldl (store c) kb).get? f = kb.get? f := by
  induction ds generalizing kb with
  | nil => rfl
  | cons d ds ih =>
      rw [List.foldl_cons, ih _ fun d' hd => h d' (List.mem_cons_of_mem _ hd), store, SortedMap.get?_insert,
        if_neg (h d List.mem_cons_self)]

theorem writable_of_mem_imports {calls : List Call} {d : Doc} (h : d ∈ imports c token calls) :
    writable (safeName c d.name) = true := by
  obtain ⟨call, -, hcall⟩ := List.mem_filterMap.1 h
  unfold imported at hcall
  split at hcall
  · cases hcall
  · exact (Option.filter_eq_some_iff.1 hcall).2

/-! ## Telling them apart -/

/-- What was filed lies in the directory, and can be told apart and read afterwards. -/
structure Filed (m m' : Machine c) (regs : List (Doc × String)) : Prop where
  inside : ∀ f, m'.kb.get? f ≠ m.kb.get? f → ∀ dir, Path.Inside dir (joinPath dir f)
  refs : ∀ x ∈ regs, ∃ f, x.2 = "kb/" ++ f ∧ ∀ dir, Path.Inside dir (joinPath dir f)
  apart : ∀ x ∈ regs, ∀ y ∈ regs, x.1.name ≠ y.1.name → x.2 ≠ y.2
  readable : ∀ xs x ys, regs = xs ++ x :: ys → (∀ y ∈ ys, y.1.name ≠ x.1.name) →
    ∃ f, x.2 = "kb/" ++ f ∧ m'.kb.get? f = some x.1.content

/-- The requests of a connection are served, and file their documents. -/
def Files (g : Vault.Grain) (v : Vault) (token : String) (conn : Nat) (calls : List Call) (m : Machine c) : Prop :=
  ∃ m' rs, (handle g v token conn calls).run m = (m', some ()) ∧ m'.answers = m.answers ++ rs.map (conn, ·) ∧
    Filed m m' (registrations c token calls rs)

/-- No two documents with different names become the same file. -/
def NoCollision (c : Crates) (token : String) (calls : List Call) : Prop :=
  ∀ d ∈ imports c token calls, ∀ d' ∈ imports c token calls, d.name ≠ d'.name → safeName c d.name ≠ safeName c d'.name

theorem filed_of_noCollision (hc : c.isAlphanumeric '/' = false) {calls : List Call} (h : NoCollision c token calls)
    (hkb : m'.kb = (imports c token calls).foldl (store c) m.kb) :
    Filed m m' ((imports c token calls).map fun d => (d, fileRef c d.name)) := by
  refine ⟨fun f hf => ?_, fun x hx => ?_, fun x hx y hy hne => ?_, fun xs x ys hregs hlast => ?_⟩
  · obtain ⟨d, hd, rfl⟩ : ∃ d ∈ imports c token calls, safeName c d.name = f := by
      by_contra hnone
      exact hf (hkb ▸ get?_foldl_store_of_notMem _ _ fun d hd he => hnone ⟨d, hd, he⟩)
    exact inside_safeName hc (writable_of_mem_imports hd)
  · obtain ⟨d, hd, rfl⟩ := List.mem_map.1 hx
    exact ⟨_, rfl, inside_safeName hc (writable_of_mem_imports hd)⟩
  · obtain ⟨d, hd, rfl⟩ := List.mem_map.1 hx
    obtain ⟨d', hd', rfl⟩ := List.mem_map.1 hy
    exact fun he => h d hd d' hd' hne ((String.append_right_inj _).1 he)
  · obtain ⟨ds, ds', hds, rfl, htail⟩ := List.map_eq_append_iff.1 hregs
    obtain ⟨d, ds', rfl, rfl, rfl⟩ := List.map_eq_cons_iff.1 htail
    refine ⟨_, rfl, ?_⟩
    have hmem : d ∈ imports c token calls := by simp [hds]
    rw [hkb, hds, List.foldl_append, List.foldl_cons, get?_foldl_store_of_notMem, store, SortedMap.get?_insert, if_pos rfl]
    intro d' hd'
    have hmem' : d' ∈ imports c token calls := by simp [hds, hd']
    exact h d' hmem' d hmem (hlast _ (List.mem_map_of_mem hd'))

theorem noCollision_of_files {calls : List Call} {m : Machine c} (h : Files g v token conn calls m) :
    NoCollision c token calls := by
  obtain ⟨m1, rs1, hrun1, hans1, hkb1, hreg1⟩ := run_requests g v token conn calls m
  intro d hd d' hd' hne he
  obtain ⟨m', rs, hrun, hans, hfiled⟩ := h
  obtain rfl : m1 = m' := by
    rw [hrun1] at hrun
    exact congrArg Prod.fst hrun
  obtain rfl : rs1 = rs := by
    have hmap := List.append_cancel_left (hans1.symm.trans hans)
    exact List.map_injective_iff.2 (fun a b hab => congrArg Prod.snd hab) hmap
  rw [hreg1] at hfiled
  exact hfiled.apart _ (List.mem_map_of_mem hd) _ (List.mem_map_of_mem hd') hne (congrArg ("kb/" ++ ·) he)

/-- The documents of any sequence of requests are filed under the directory and apart, exactly if no two of
them with different names become the same file. -/
theorem files_iff (hc : c.isAlphanumeric '/' = false) (g : Vault.Grain) (v : Vault) (token : String) (conn : Nat)
    (calls : List Call) (m : Machine c) : Files g v token conn calls m ↔ NoCollision c token calls := by
  refine ⟨noCollision_of_files, fun h => ?_⟩
  obtain ⟨m1, rs1, hrun1, hans1, hkb1, hreg1⟩ := run_requests g v token conn calls m
  exact ⟨m1, rs1, hrun1, hans1, hreg1 ▸ filed_of_noCollision hc h hkb1⟩

section Sample

def importing (name content : String) : Call :=
  ⟨"\x7b\"token\":\"t\",\"cmd\":\"kb.import\",\"name\":\"" ++ name ++ "\",\"content\":\"" ++ content ++ "\"\x7d",
    zeroNonce, true⟩

theorem files_iff_sample :
    Files .whole ⟨zeroKey⟩ "t" 0 [importing "../etc/a.md" "x", importing "b.md" "y"] noFiles ↔
      NoCollision sample "t" [importing "../etc/a.md" "x", importing "b.md" "y"] :=
  files_iff (by decide) .whole ⟨zeroKey⟩ "t" 0 _ noFiles

/-- The second document takes the place of the first one. -/
theorem files_overwritten :
    ¬ ∀ (c : Crates) (g : Vault.Grain) (v : Vault) (token : String) (conn : Nat) (calls : List Call) (m : Machine c),
      c.isAlphanumeric '/' = false → Files g v token conn calls m := by
  intro h
  have hapart := noCollision_of_files (h sample .whole ⟨zeroKey⟩ "t" 0 [importing "a b" "x", importing "ab" "y"] noFiles
    (by decide))
  have himp : imports sample "t" [importing "a b" "x", importing "ab" "y"] = [⟨"a b", "x"⟩, ⟨"ab", "y"⟩] := by
    decide +kernel
  rw [NoCollision, himp] at hapart
  exact hapart ⟨"a b", "x"⟩ (by simp) ⟨"ab", "y"⟩ (by simp) (by decide) (by decide)

end Sample

end Ipc

end Executor
