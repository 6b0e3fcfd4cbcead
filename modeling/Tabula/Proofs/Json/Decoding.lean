/-
# Decoders and what they are given

Two properties of decoders, each with a lemma for every way in which decoders are put together.

`Restores encode decode a` says that the record which `encode` makes of `a` can be written, and that
`decode` takes it for `a` again; then a document of that record is decoded to `a` too
(`Restores.document`).  `Ensures decode P` says that whatever `decode` gives has the property `P`.
-/
import Tabula.Json.Decoder
import Tabula.Proofs.Fallible
import Tabula.Proofs.Json.Reading

namespace Tabula

/-! ## 1. Dictionaries from their own entries -/

namespace Dict

variable {α : Type}

theorem eq_empty_of_isEmpty {d : Dict α} (h : d.isEmpty) : d = empty := by
  obtain ⟨es, hes⟩ := d
  obtain rfl : es = [] := List.isEmpty_iff.mp h
  rfl

theorem insertEntry_of_lt {key : String} {a : α} {es : List (String × α)}
    (h : ∀ e ∈ es, e.1 < key) : insertEntry key a es = es ++ [(key, a)] := by
  induction es with
  | nil => rfl
  | cons e es ih =>
    have he : e.1 < key := h e (by simp)
    have hlt : ¬key < e.1 := fun hlt => String.lt_irrefl key (String.lt_trans hlt he)
    have hne : key ≠ e.1 := fun heq => String.lt_irrefl key (heq ▸ he)
    rw [insertEntry, if_neg hlt, if_neg hne, ih fun e' he' => h e' (by simp [he'])]
    rfl

/-- Entries that are entered in their order come to stand in that order. -/
theorem entries_foldl_insert (es : List (String × α)) (d : Dict α)
    (h : (d.entries ++ es).Pairwise fun a b => a.1 < b.1) :
    (es.foldl (fun d e => d.insert e.1 e.2) d).entries = d.entries ++ es := by
  induction es generalizing d with
  | nil => simp
  | cons e es ih =>
    have hentries : (d.insert e.1 e.2).entries = d.entries ++ [e] :=
      insertEntry_of_lt fun e' he' => (List.pairwise_append.1 h).2.2 e' he' e (by simp)
    rw [List.foldl_cons, ih _ (by rw [hentries]; simpa using h), hentries]
    simp

/-- A dictionary is made of its entries. -/
theorem ofList_entries (d : Dict α) : ofList d.entries = d := by
  have hentries := entries_foldl_insert d.entries empty (by simpa [empty] using d.sorted)
  obtain ⟨es, hes⟩ := d
  unfold ofList
  generalize es.foldl (fun d e => d.insert e.1 e.2) (empty : Dict α) = d' at hentries
  obtain ⟨es', hes'⟩ := d'
  simpa [empty] using hentries

end Dict

namespace Json

open Tabula.Decimal

variable {ρ α β δ : Type}

/-! ## 2. Which values can be written -/

theorem allWritable_iff {vs : List Json} : allWritable vs ↔ ∀ v ∈ vs, v.isWritable := by
  induction vs with
  | nil => simp [allWritable]
  | cons v vs ih => simp [allWritable, ih]

@[simp] theorem isWritable_text (s : String) : (text s).isWritable := by
  simp [text, isWritable]

@[simp] theorem isWritable_bool (b : Bool) : (bool b).isWritable := by simp [isWritable]

@[simp] theorem isWritable_number (n : Numeral) : (number n).isWritable := by simp [isWritable]

@[simp] theorem isWritable_array (vs : List Json) :
    (array vs).isWritable ↔ ∀ v ∈ vs, v.isWritable := by
  rw [isWritable, allWritable_iff]

@[simp] theorem isWritable_fields (ms : List (String × Json)) :
    (fields ms).isWritable ↔ ∀ m ∈ ms, m.2.isWritable := by
  rw [fields, isWritable]
  induction ms with
  | nil => simp [allMembersWritable]
  | cons m ms ih => simp [allMembersWritable, ih]

/-! ## 3. Decoders that restore -/

/-- What `encode` makes of the element can be written, and `decode` takes it for that element. -/
structure Restores (encode : α → Json) (decode : Decoder ρ α) (a : α) : Prop where
  writable : (encode a).isWritable
  decoded : decode (encode a) = .ok a

/-- **An element is decoded from its own document.** -/
theorem Restores.document {encode : α → Json} {decode : Decoder ρ α} {a : α}
    (h : Restores encode decode a) : decodeDocument decode (encode a).render = .ok a := by
  simp [decodeDocument, read_render h.writable, h.decoded, dropSpace]

theorem restores_text (s : String) : Restores text (decodeText (ρ := ρ)) s :=
  ⟨isWritable_text s, rfl⟩

theorem restores_bool (b : Bool) : Restores bool (decodeBool (ρ := ρ)) b :=
  ⟨isWritable_bool b, rfl⟩

/-- An integer in the range of its decoder. -/
theorem decodeInt_ofInt {low high i : Int} (h : low ≤ i ∧ i ≤ high) :
    decodeInt (ρ := ρ) low high (number (.ofInt i)) = .ok i := by
  simp [decodeInt, Numeral.toInt?_ofInt, h]

/-- A natural number below the bound of its decoder. -/
theorem decodeNat_nat {bound n : Nat} (h : n < bound) :
    decodeNat (ρ := ρ) bound (nat n) = .ok n := by
  have hint : decodeInt (ρ := ρ) 0 ((bound : Int) - 1) (nat n) = .ok (n : Int) :=
    decodeInt_ofInt (by omega)
  rw [decodeNat, hint, map_ok, Int.toNat_natCast]

/-- A word of a list is taken for what stands beside it. -/
theorem restores_word {words : List (String × α)} {word : α → String} {a : α}
    (h : words.lookup (word a) = some a) :
    Restores (fun a => text (word a)) (decodeWord (ρ := ρ) words) a :=
  ⟨isWritable_text _, by simp [text, decodeWord, require, h]⟩

/-- A list is restored item by item. -/
theorem restores_list {encode : α → Json} {decode : Decoder ρ α} {as : List α}
    (h : ∀ a ∈ as, Restores encode decode a) :
    Restores (fun as => array (as.map encode)) (decodeList decode) as where
  writable := by
    simp only [isWritable_array, List.forall_mem_map]
    exact fun a ha => (h a ha).writable
  decoded := by
    rw [decodeList, mapM_eq_ok_iff, List.forall₂_map_left_iff, List.forall₂_same]
    exact fun a ha => (h a ha).decoded

theorem restores_texts (ss : List String) :
    Restores texts (decodeList (decodeText (ρ := ρ))) ss :=
  restores_list fun s _ => restores_text s

/-- What is there is restored as such, if it is not written as null. -/
theorem Restores.decodeOption {encode : α → Json} {decode : Decoder ρ α} {a : α}
    (h : Restores encode decode a) (hne : encode a ≠ null) :
    decodeOption decode (encode a) = .ok (some a) := by
  rw [Json.decodeOption.eq_2 _ _ hne, h.decoded, map_ok]

theorem decodeOption_text (s : String) :
    decodeOption (decodeText (ρ := ρ)) (text s) = .ok (some s) :=
  (restores_text s).decodeOption (by simp [text])

theorem enterMembers_fields {encode : α → Json} {decode : Decoder ρ α}
    {es : List (String × α)} (h : ∀ e ∈ es, decode (encode e.2) = .ok e.2) (d : Dict α) :
    enterMembers decode d (es.map fun e => (some e.1, encode e.2)) =
      .ok (es.foldl (fun d e => d.insert e.1 e.2) d) := by
  induction es generalizing d with
  | nil => rfl
  | cons e es ih =>
    simp only [List.map_cons, enterMembers, h e (by simp), List.foldl_cons]
    exact ih (fun e' he' => h e' (by simp [he'])) _

/-- A dictionary is restored value by value. -/
theorem restores_dict {encode : α → Json} {decode : Decoder ρ α} {d : Dict α}
    (h : ∀ e ∈ d.entries, Restores encode decode e.2) :
    Restores (fun d => fields (d.entries.map fun e => (e.1, encode e.2))) (decodeDict decode)
      d where
  writable := by
    simp only [isWritable_fields, List.forall_mem_map]
    exact fun e he => (h e he).writable
  decoded := by
    simp only [fields, decodeDict, List.map_map, Function.comp_def]
    rw [enterMembers_fields fun e he => (h e he).decoded]
    exact congrArg _ d.ofList_entries

/-! ## 4. Records -/

/-- Members that are known, none of them twice, are taken one after the other. -/
theorem takeMembers_fields {names : List String} {pass : Json → Bool}
    {step : δ → String → Json → Except (DocumentError ρ) δ} (ms : Fields)
    (hnames : ∀ m ∈ ms, m.1 ∈ names) (hms : (ms.map (·.1)).Nodup) (seen : List String)
    (hseen : ∀ m ∈ ms, m.1 ∉ seen) (d : δ) :
    takeMembers names pass step seen d (ms.map fun m => (some m.1, m.2)) =
      ms.foldlM (fun d m => step d m.1 m.2) d := by
  induction ms generalizing seen d with
  | nil => rfl
  | cons m ms ih =>
    simp only [List.map_cons, List.nodup_cons, List.mem_map, not_exists, not_and] at hms
    have hm : names.contains m.1 = true := by simp [hnames m (by simp)]
    have hnew : seen.contains m.1 = false := by simp [hseen m (by simp)]
    simp only [List.map_cons, takeMembers, hm, hnew, ite_true, Bool.false_eq_true, ite_false,
      List.foldlM_cons]
    congr 1
    funext d
    refine ih (fun m' hm' => hnames m' (by simp [hm'])) hms.2 _ (fun m' hm' => ?_) d
    rw [List.mem_cons, not_or]
    exact ⟨hms.1 m' hm', hseen m' (by simp [hm'])⟩

theorem foldlM_collect (ms fs : Fields) :
    ms.foldlM (fun fs m => collect (ρ := ρ) fs m.1 m.2) fs = .ok (fs ++ ms) := by
  induction ms generalizing fs with
  | nil => simp
  | cons m ms ih =>
    rw [List.foldlM_cons, collect, ok_bind, ih]
    simp

section Fields

variable (keys : List String) {names : List String} {ms : List (String × Json)}
  (hms : ms.map (·.1) = keys) (hkeys : keys.Sublist names) (hnames : names.Nodup)

include hms hkeys hnames

/-- A record is read field by field, if each is known and none occurs twice. -/
theorem takeRecord_fields (step : δ → String → Json → Except (DocumentError ρ) δ) (start : δ) :
    takeRecord names step start (fields ms) = ms.foldlM (fun d m => step d m.1 m.2) start :=
  takeMembers_fields ms (fun m hm => hkeys.subset (hms ▸ List.mem_map_of_mem hm))
    (hms ▸ hnames.sublist hkeys) [] (by simp) start

/-- The members of such an object are its fields. -/
theorem recordFields_fields : recordFields (ρ := ρ) names (fields ms) = .ok ms :=
  (takeRecord_fields keys hms hkeys hnames collect []).trans (foldlM_collect ms [])

/-- The same for a record whose members are held until its end. -/
theorem heldFields_fields {levels : Nat} : heldFields (ρ := ρ) names levels (fields ms) = .ok ms :=
  (takeMembers_fields ms (fun m hm => hkeys.subset (hms ▸ List.mem_map_of_mem hm))
    (hms ▸ hnames.sublist hkeys) [] (by simp) []).trans (foldlM_collect ms [])

end Fields

/-! ## 5. What decoders give -/

/-- Whatever the decoder gives has the property. -/
def Ensures (decode : Decoder ρ α) (P : α → Prop) : Prop := ∀ v a, decode v = .ok a → P a

variable {decode : Decoder ρ α} {P : α → Prop}

theorem Ensures.list (h : Ensures decode P) :
    Ensures (decodeList decode) fun as => ∀ a ∈ as, P a := by
  intro v as hv
  cases v with
  | array items =>
    have hitems := mapM_eq_ok_iff.mp hv
    clear hv
    induction hitems with
    | nil => simp
    | cons hitem _ ih => exact List.forall_mem_cons.mpr ⟨h _ _ hitem, ih⟩
  | _ => cases hv

theorem Ensures.option (h : Ensures decode P) :
    Ensures (decodeOption decode) fun o => ∀ a ∈ o, P a := by
  intro v o hv
  cases v with
  | null => cases hv; simp
  | _ =>
    obtain ⟨a, ha, rfl⟩ := map_eq_ok.mp hv
    simpa using h _ _ ha

theorem require_eq_ok {o : Option α} {a : α} : require (ρ := ρ) o = .ok a ↔ o = some a := by
  cases o <;> simp [require, malformed]

/-- A word is taken for something that its list holds. -/
theorem ensures_word (words : List (String × α)) :
    Ensures (decodeWord (ρ := ρ) words) fun a => ∃ word, words.lookup word = some a := by
  intro v a hv
  unfold decodeWord at hv
  split at hv
  · exact ⟨_, require_eq_ok.mp hv⟩
  · exact ⟨_, require_eq_ok.mp hv⟩
  · cases hv

theorem Ensures.required (h : Ensures decode P) {fs : Fields} {name : String} {a : α}
    (ha : fs.required name decode = .ok a) : P a := by
  unfold Fields.required at ha
  split at ha
  · exact h _ _ ha
  · cases ha

theorem Ensures.optional (h : Ensures decode P) {fs : Fields} {name : String} {default a : α}
    (hdefault : P default) (ha : fs.optional name default decode = .ok a) : P a := by
  unfold Fields.optional at ha
  split at ha
  · exact h _ _ ha
  · cases ha; exact hdefault

/-- What is true of the values of a dictionary and of a new one stays true. -/
theorem forall_mem_values_insert {d : Dict α} {key : String} {a : α} (hd : ∀ b ∈ d.values, P b)
    (ha : P a) : ∀ b ∈ (d.insert key a).values, P b := by
  simp only [Dict.values, List.forall_mem_map] at hd ⊢
  intro e he
  rcases Dict.key_mem_insertEntry he with rfl | he
  · exact ha
  · exact hd e he

theorem forall_mem_values_of_enterMembers (h : Ensures decode P)
    {ms : List (Option String × Json)} {d d' : Dict α} (hd : ∀ a ∈ d.values, P a)
    (hms : enterMembers decode d ms = .ok d') : ∀ a ∈ d'.values, P a := by
  induction ms generalizing d with
  | nil => cases hms; exact hd
  | cons m ms ih =>
    obtain ⟨key, v⟩ := m
    cases key with
    | none => cases hms
    | some key =>
      obtain ⟨a, ha, hms⟩ := bind_eq_ok.mp hms
      exact ih (forall_mem_values_insert hd (h _ _ ha)) hms

theorem Ensures.dict (h : Ensures decode P) :
    Ensures (decodeDict decode) fun d => ∀ a ∈ d.values, P a := by
  intro v d hv
  cases v with
  | object members =>
    exact forall_mem_values_of_enterMembers h (by simp [Dict.values, Dict.empty]) hv
  | _ => cases hv

section Records

variable {step : δ → String → Json → Except (DocumentError ρ) δ} {I : δ → Prop}
  (hstep : ∀ {d name v d'}, I d → step d name v = .ok d' → I d')

include hstep

theorem holds_of_takeMembers {names seen : List String} {pass : Json → Bool}
    {ms : List (Option String × Json)} {d d' : δ} (hd : I d)
    (hms : takeMembers names pass step seen d ms = .ok d') : I d' := by
  induction ms generalizing seen d with
  | nil => cases hms; exact hd
  | cons m ms ih =>
    obtain ⟨key, v⟩ := m
    cases key with
    | none => cases hms
    | some key =>
      rw [takeMembers] at hms
      split at hms
      · split at hms
        · cases hms
        · obtain ⟨d₁, hd₁, hms⟩ := bind_eq_ok.mp hms
          exact ih (hstep hd hd₁) hms
      · split at hms
        · exact ih hd hms
        · cases hms

theorem holds_of_takeItems {names : List String} {vs : List Json} {d d' : δ} (hd : I d)
    (hvs : takeItems step names d vs = .ok d') : I d' := by
  induction vs generalizing names d with
  | nil => cases names <;> cases hvs <;> exact hd
  | cons v vs ih =>
    cases names with
    | nil => cases hvs
    | cons name names =>
      obtain ⟨d₁, hd₁, hvs⟩ := bind_eq_ok.mp hvs
      exact ih (hstep hd hd₁) hvs

/-- What holds before a record is read, and is kept by each of its fields, holds of what the record
gives, be it an object or an array. -/
theorem Ensures.record {start : δ} (hstart : I start) (names : List String) :
    Ensures (takeRecord names step start) I := by
  intro v d hv
  cases v with
  | object members => exact holds_of_takeMembers hstep hstart hv
  | array items => exact holds_of_takeItems hstep hstart hv
  | _ => cases hv

end Records

/-- What a document decodes to is what its value does. -/
theorem decode_of_decodeDocument {s : String} {a : α} (h : decodeDocument decode s = .ok a) :
    decode (read s).1 = .ok a := by
  unfold decodeDocument at h
  generalize read s = r at h
  obtain ⟨a', ha', hend⟩ := bind_eq_ok.mp h
  by_cases hrest : dropSpace r.2 = []
  · rw [if_pos hrest] at hend
    cases hend
    exact ha'
  · rw [if_neg hrest] at hend
    cases hend

end Json
end Tabula
