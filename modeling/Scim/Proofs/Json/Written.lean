import Scim.Json.Record
import Scim.Json.Text

/-!
# What was written is read

`Decoder.Reads d j a`: the decoder `d` takes the value `a` from the compact text of the document `j`,
whatever stands behind it, and from the document itself. There is one lemma for each decoder. A record is
read from an object whose members were written in some order of its fields, some of them left out
(`Field.Written`); each of them is one step of the reader (`Record.Takes`).
-/

set_option autoImplicit false

namespace Scim

namespace Json

/-! ## Strings -/

theorem codeUnit?_control : ∀ n < 0x20,
    codeUnit? '0' '0' (Nat.digitChar (n / 16)) (Nat.digitChar (n % 16)) = some n := by
  decide

theorem readString_unit {n : Nat} (h : n < 0x20) (s : List Char) :
    readString ('\\' :: 'u' :: '0' :: '0' :: Nat.digitChar (n / 16) :: Nat.digitChar (n % 16) :: s) =
      readString.push (Char.ofNat n) (readString s) := by
  rw [readString]
  have hlow : (0xDC00 ≤ n && n ≤ 0xDFFF) = false := by simp; omega
  have hhigh : (0xD800 ≤ n && n ≤ 0xDBFF) = false := by simp; omega
  simp [codeUnit?_control n h, hlow, hhigh]

/-- An escaped character is read as itself. -/
theorem readString_escaped (c : Char) (s : List Char) :
    readString (escaped c ++ s) = readString.push c (readString s) := by
  unfold escaped
  -- the seven characters that have a letter of their own
  iterate 7
    split
    · subst c
      rfl
  split
  · rename_i h
    simpa using readString_unit h s
  · rename_i hquote hback _ _ _ _ _ hlow
    rw [List.singleton_append, readString.eq_def (c :: s)]
    dsimp only
    rw [if_neg hquote, if_neg hback, if_neg hlow]

/-- A string is read up to its closing quotation mark. -/
theorem readString_text (cs rest : List Char) :
    readString (cs.flatMap escaped ++ '"' :: rest) = .ok (cs, rest) := by
  induction cs with
  | nil => exact readString.eq_def _
  | cons c cs ih =>
    rw [List.flatMap_cons, List.append_assoc, readString_escaped, ih]
    rfl

theorem stringText_append (s : String) (rest : List Char) :
    stringText s ++ rest = '"' :: (s.toList.flatMap escaped ++ '"' :: rest) := by
  rw [stringText, List.cons_append, List.cons_append, List.append_assoc]
  rfl

theorem nameStart_stringText (name : String) (s : List Char) :
    nameStart (stringText name ++ s) = .ok (name.toList.flatMap escaped ++ '"' :: s) := by
  rw [stringText_append]
  rfl

/-! ## Where a text begins -/

theorem skipBlanks_cons {c : Char} (h : isBlank c = false) (s : List Char) :
    skipBlanks (c :: s) = c :: s := by
  rw [skipBlanks, List.dropWhile_cons, h]
  rfl

/-- The text begins with a character that stands neither for a blank nor for null or the end of a
list. -/
def Opens (j : Json) : Prop :=
  ∃ c s, j.text = c :: s ∧ isBlank c = false ∧ c ≠ 'n' ∧ c ≠ ']'

theorem opens_string (s : String) : (string s).Opens :=
  ⟨_, _, rfl, rfl, by decide, by decide⟩

theorem opens_array (items : List Json) : (array items).Opens := by
  cases items <;> exact ⟨_, _, rfl, rfl, by decide, by decide⟩

theorem opens_object (members : List (String × Json)) : (object members).Opens := by
  cases members <;> exact ⟨_, _, rfl, rfl, by decide, by decide⟩

theorem length_lt_itemsText (items : List Json) : items.length < (itemsText items).length := by
  induction items with
  | nil => decide
  | cons j items ih =>
    rw [itemsText]
    simp only [List.length_cons, List.length_append]
    omega

theorem length_lt_membersText (members : List (String × Json)) :
    members.length < (membersText members).length := by
  induction members with
  | nil => decide
  | cons m members ih =>
    rw [membersText]
    simp only [List.length_cons, List.length_append]
    omega

end Json

open Json

/-! ## Decoders -/

namespace Decoder

variable {α : Type} {d : Decoder α} {j : Json} {a : α}

/-- The value is read from the document and from its text, whatever follows. -/
structure Reads (d : Decoder α) (j : Json) (a : α) : Prop where
  fromText : ∀ rest, d.fromText (j.text ++ rest) = .ok (a, rest)
  fromJson : d.fromJson j = .ok a

/-- A whole text holds the value and nothing else. -/
theorem Reads.decode_compact (h : d.Reads j a) : d.decode j.compact = .ok a := by
  have hread : d.fromText j.compact.toList = .ok (a, []) := by
    rw [compact, String.toList_ofList, ← List.append_nil j.text]
    exact h.fromText []
  rw [decode, hread]
  rfl

/-! ### Scalars -/

theorem string_reads (expected s : String) : (string expected).Reads (.string s) s where
  fromText rest := by
    rw [Json.text, stringText_append]
    show (readString _ >>= fun x => Except.ok (String.ofList x.1, x.2)) = _
    rw [readString_text]
    show Except.ok (String.ofList s.toList, rest) = _
    rw [String.ofList_toList]
  fromJson := rfl

theorem text_reads (s : String) : text.Reads (.string s) s :=
  string_reads _ s

theorem boolean_reads (b : Bool) : boolean.Reads (.bool b) b where
  fromText rest := by cases b <;> rfl
  fromJson := rfl

theorem Reads.andThen {β : Type} {f : α → Except Mismatch β} {b : β} (h : d.Reads j a)
    (hf : f a = .ok b) : (d.andThen f).Reads j b where
  fromText rest := by
    dsimp only [Decoder.andThen]
    rw [h.fromText]
    dsimp only [bind, Except.bind]
    rw [hf]
  fromJson := by
    dsimp only [Decoder.andThen]
    rw [h.fromJson]
    dsimp only [bind, Except.bind]
    rw [hf]

/-- A token is read where it is the first spelling of a value. -/
theorem token_reads {tokens : List (String × α)} {token : String} (levels : Nat)
    (h : tokens.lookup token = some a) : (Decoder.token levels tokens).Reads (.string token) a where
  fromText rest := by
    have htoken : ofToken tokens token = .ok a := by rw [ofToken, h]
    have hread := (text_reads token).fromText rest
    rw [Json.text, stringText_append] at hread ⊢
    show (text.andThen (ofToken tokens)).fromText _ = _
    dsimp only [andThen]
    rw [hread]
    dsimp only [bind, Except.bind]
    rw [htoken]
  fromJson := by
    dsimp only [Decoder.token]
    rw [ofToken, h]

/-- What is not null is read as it is without the option. -/
theorem Reads.optional (h : d.Reads j a) (hopens : j.Opens) :
    (Decoder.optional d).Reads j (some a) where
  fromText rest := by
    obtain ⟨c, s, htext, hblank, hnull, -⟩ := hopens
    have hread := h.fromText rest
    rw [htext, List.cons_append] at hread ⊢
    dsimp only [Decoder.optional]
    rw [skipBlanks_cons hblank]
    split
    · rename_i heq
      cases heq
      exact absurd rfl hnull
    · dsimp only [Decoder.map]
      rw [hread]
      rfl
  fromJson := by
    cases j with
    | null =>
      obtain ⟨c, s, htext, -, hnull, -⟩ := hopens
      cases htext
      exact absurd rfl hnull
    | _ =>
      show (do
        let a ← d.fromJson _
        Except.ok (some a)) = _
      rw [h.fromJson]
      rfl

/-! ### Lists -/

section
variable {write : α → Json} {as : List α} (hread : ∀ a ∈ as, d.Reads (write a) a)
include hread

theorem readItems_itemsText (hopens : ∀ a ∈ as, (write a).Opens) {bound : Nat}
    (hbound : as.length < bound) (rest : List Char) :
    readItems d.fromText bound (itemsText (as.map write) ++ rest) = .ok (as, rest) := by
  induction as generalizing bound with
  | nil =>
    cases bound with
    | zero => exact absurd hbound (Nat.not_lt_zero _)
    | succ bound => rfl
  | cons a as ih =>
    cases bound with
    | zero => exact absurd hbound (Nat.not_lt_zero _)
    | succ bound =>
      obtain ⟨ha, has⟩ := List.forall_mem_cons.1 hread
      obtain ⟨⟨c, s, htext, hblank, -, hend⟩, hmore⟩ := List.forall_mem_cons.1 hopens
      have hitem := ha.fromText (itemsText (as.map write) ++ rest)
      have hitems := ih has hmore (Nat.lt_of_succ_lt_succ hbound)
      rw [htext, List.cons_append] at hitem
      rw [List.map_cons, itemsText, htext, List.cons_append, List.cons_append, List.append_assoc,
        List.cons_append, readItems, skipBlanks_cons (by decide)]
      simp only [skipBlanks_cons hblank, Char.reduceEq, if_true, if_false]
      split
      · rename_i heq
        cases heq
      · rename_i heq
        cases heq
        exact absurd rfl hend
      · rw [hitem]
        dsimp only [bind, Except.bind]
        rw [hitems]

theorem mapM_fromJson : (as.map write).mapM d.fromJson = .ok as := by
  induction as with
  | nil => rfl
  | cons a as ih =>
    obtain ⟨ha, has⟩ := List.forall_mem_cons.1 hread
    rw [List.map_cons, List.mapM_cons, ha.fromJson, ih has]
    rfl

/-- A list is read from the array of its items. -/
theorem list_reads (hopens : ∀ a ∈ as, (write a).Opens) {levels : Nat} (hlevels : 0 < levels) :
    (Decoder.list levels d).Reads (.array (as.map write)) as where
  fromText rest := by
    obtain ⟨levels, rfl⟩ := Nat.exists_eq_succ_of_ne_zero (Nat.ne_of_gt hlevels)
    cases as with
    | nil => rfl
    | cons a as =>
      obtain ⟨ha, has⟩ := List.forall_mem_cons.1 hread
      obtain ⟨⟨c, s, htext, hblank, -, hend⟩, hmore⟩ := List.forall_mem_cons.1 hopens
      have hitem := ha.fromText (itemsText (as.map write) ++ rest)
      have hbound : as.length < (itemsText (as.map write) ++ rest).length + 1 := by
        have := length_lt_itemsText (as.map write)
        rw [List.length_map] at this
        rw [List.length_append]
        omega
      rw [htext, List.cons_append] at hitem
      rw [List.map_cons, Json.text, htext, List.cons_append, List.cons_append, List.append_assoc,
        List.cons_append]
      show readArray d.fromText _ = _
      rw [readArray, skipBlanks_cons hblank]
      split
      · rename_i heq
        cases heq
      · rename_i heq
        cases heq
        exact absurd rfl hend
      · rw [hitem]
        dsimp only [bind, Except.bind]
        rw [readItems_itemsText has hmore hbound]
  fromJson := mapM_fromJson hread

end

end Decoder

/-! ## Records -/

section
variable {ρ : Type}

/-- Reading the document as the field's value leads from one record to another. -/
structure Field.Reads (f : Field ρ) (v : ρ) (j : Json) (w : ρ) : Prop where
  fromText : ∀ rest, f.fromText v (j.text ++ rest) = .ok (w, rest)
  fromJson : f.fromJson v j = .ok w

theorem Decoder.Reads.field {α : Type} {d : Decoder α} {j : Json} {a : α} (h : d.Reads j a)
    (key : String) (required : Bool) (put : ρ → α → ρ) (v : ρ) :
    (Field.of key required d put).Reads v j (put v a) where
  fromText rest := by
    dsimp only [Field.of]
    rw [h.fromText]
    rfl
  fromJson := by
    dsimp only [Field.of]
    rw [h.fromJson]
    rfl

/-- The members are written in the order of the fields, for every required one at least, and
reading them leads from one record to another. -/
inductive Field.Written : List (Field ρ) → ρ → List (String × Json) → ρ → Prop
  | nil (v : ρ) : Written [] v [] v
  | member {f : Field ρ} {fields : List (Field ρ)} {v w u : ρ} {j : Json}
    {members : List (String × Json)} :
    f.Reads v j w → Written fields w members u → Written (f :: fields) v ((f.key, j) :: members) u
  | omitted {f : Field ρ} {fields : List (Field ρ)} {v u : ρ} {members : List (String × Json)} :
    f.required = false → Written fields v members u → Written (f :: fields) v members u

section
variable {α : Type} {key : String} {fields : List (Field ρ)} {v w : ρ}
  {members : List (String × Json)}

theorem Field.Written.value {d : Decoder α} {put : ρ → α → ρ} {required : Bool} {j : Json} {a : α}
    (hread : d.Reads j a) (h : Written fields (put v a) members w) :
    Written (.of key required d put :: fields) v ((key, j) :: members) w :=
  .member (hread.field key required put v) h

/-- A member that is written for what there is. -/
theorem Field.Written.option {d : Decoder (Option α)} {put : ρ → Option α → ρ} {o : Option α}
    {write : α → Json} (hread : ∀ a, o = some a → d.Reads (write a) (some a))
    (hnone : put v none = v) (h : Written fields (put v o) members w) :
    Written (.of key false d put :: fields) v
      ((o.map fun a => (key, write a)).toList ++ members) w := by
  cases o with
  | none =>
    rw [hnone] at h
    exact .omitted rfl h
  | some a => exact .value (hread a rfl) h

/-- A member that is left out where its value is the default. -/
theorem Field.Written.elided {d : Decoder α} {put : ρ → α → ρ} {j : Json} {a : α} {absent : Bool}
    (hread : absent = false → d.Reads j a) (habsent : absent = true → put v a = v)
    (h : Written fields (put v a) members w) :
    Written (.of key false d put :: fields) v
      ((if absent then [] else [(key, j)]) ++ members) w := by
  cases absent with
  | true =>
    rw [habsent rfl] at h
    exact .omitted rfl h
  | false => exact .value (hread rfl) h

/-- As `elided`, for the last field. -/
theorem Field.Written.elided_last {d : Decoder α} {put : ρ → α → ρ} {j : Json} {a : α}
    {absent : Bool} (hread : absent = false → d.Reads j a)
    (habsent : absent = true → put v a = v) :
    Written [.of key false d put] v (if absent then [] else [(key, j)]) (put v a) := by
  have h : Written [.of key false d put] v ((if absent then [] else [(key, j)]) ++ []) (put v a) :=
    .elided hread habsent (.nil _)
  rwa [List.append_nil] at h

end

namespace Record

variable {r : Record ρ}

/-- The reader takes the members one by one. -/
inductive Takes (r : Record ρ) : Partial ρ → List (String × Json) → Partial ρ → Prop
  | nil (p : Partial ρ) : Takes r p [] p
  | cons {p q : Partial ρ} {key : String} {f : Field ρ} {w : ρ} {j : Json}
    {members : List (String × Json)} :
    r.field? key = some f → p.has key = false → f.Reads p.value j w →
    Takes r ⟨w, key :: p.seen⟩ members q → Takes r p ((key, j) :: members) q

/-! ### Steps of the reader -/

theorem readMember_reads {p : Partial ρ} {key : String} {f : Field ρ} {w : ρ} {j : Json}
    (hfield : r.field? key = some f) (hnew : p.has key = false) (h : f.Reads p.value j w)
    (rest : List Char) :
    r.readMember key p (':' :: j.text ++ rest) = .ok (⟨w, key :: p.seen⟩, rest) := by
  rw [readMember, hfield]
  dsimp only
  rw [hnew, List.cons_append, readColon, skipBlanks_cons (by decide)]
  dsimp only [bind, Except.bind]
  rw [if_pos rfl]
  dsimp only
  rw [h.fromText]
  rfl

/-- A member is read with its name. -/
theorem readNamed_reads {σ : Type} {p : Partial ρ} {key : String} {f : Field ρ} {w : ρ} {j : Json}
    (hfield : r.field? key = some f) (hnew : p.has key = false) (h : f.Reads p.value j w)
    (rest : List Char) (next : Partial ρ → Reader σ) :
    (do
      let s ← nameStart (stringText key ++ ':' :: j.text ++ rest)
      let (name, s) ← readString s
      let (gathered, s) ← r.readMember (String.ofList name) p s
      next gathered s) = next ⟨w, key :: p.seen⟩ rest := by
  have hmember := readMember_reads hfield hnew h rest
  rw [List.append_assoc, nameStart_stringText]
  show (do
    let (name, s) ← readString (key.toList.flatMap escaped ++ '"' :: (':' :: j.text ++ rest))
    let (gathered, s) ← r.readMember (String.ofList name) p s
    next gathered s) = _
  rw [readString_text]
  show (do
    let (gathered, s) ← r.readMember (String.ofList key.toList) p (':' :: j.text ++ rest)
    next gathered s) = _
  rw [String.ofList_toList, hmember]
  rfl

theorem Takes.readMembers {p q : Partial ρ} {members : List (String × Json)}
    (h : r.Takes p members q) {bound : Nat} (hbound : members.length < bound) (rest : List Char) :
    Decoder.readMembers r.readMember bound p (membersText members ++ rest) = .ok (q, rest) := by
  induction h generalizing bound with
  | nil p =>
    cases bound with
    | zero => exact absurd hbound (Nat.not_lt_zero _)
    | succ bound => rfl
  | @cons p q key f w j members hfield hnew hread hmore ih =>
    cases bound with
    | zero => exact absurd hbound (Nat.not_lt_zero _)
    | succ bound =>
      have hmember := readNamed_reads hfield hnew hread (membersText members ++ rest)
        (Decoder.readMembers r.readMember bound)
      rw [ih (Nat.lt_of_succ_lt_succ hbound)] at hmember
      rw [membersText, List.cons_append, List.cons_append, List.cons_append, List.append_assoc]
      exact hmember

theorem Takes.readObject {p q : Partial ρ} {members : List (String × Json)}
    (h : r.Takes p members q) (rest : List Char) : ∃ s,
    (Json.object members).text ++ rest = '{' :: s ∧
      Decoder.readObject r.readMember p s = .ok (q, rest) := by
  cases h with
  | nil => exact ⟨_, rfl, rfl⟩
  | @cons _ _ key f w j members hfield hnew hread hmore =>
    refine ⟨stringText key ++ ':' :: j.text ++ (membersText members ++ rest),
      by simp only [Json.text, List.cons_append, List.append_assoc], ?_⟩
    have hbound : members.length < (membersText members ++ rest).length + 1 := by
      have := length_lt_membersText members
      rw [List.length_append]
      omega
    have hmember := readNamed_reads hfield hnew hread (membersText members ++ rest)
      fun gathered s => Decoder.readMembers r.readMember (s.length + 1) gathered s
    rw [hmore.readMembers hbound] at hmember
    exact hmember

theorem Takes.foldlM_fromJson {p q : Partial ρ} {members : List (String × Json)}
    (h : r.Takes p members q) : members.foldlM r.memberFromJson p = .ok q := by
  induction h with
  | nil p => rfl
  | @cons p q key f w j members hfield hnew hread hmore ih =>
    have hmember : r.memberFromJson p (key, j) = .ok ⟨w, key :: p.seen⟩ := by
      rw [memberFromJson, hfield]
      dsimp only
      rw [hnew, hread.fromJson]
      rfl
    rw [List.foldlM_cons, hmember]
    exact ih

/-! ### Whole records -/

theorem field?_key {fields : List (Field ρ)} (hkeys : (fields.map Field.key).Nodup) {f : Field ρ}
    (hf : f ∈ fields) : fields.find? (fun g => g.key == f.key) = some f := by
  induction fields with
  | nil => cases hf
  | cons g fields ih =>
    rw [List.map_cons, List.nodup_cons] at hkeys
    rcases List.mem_cons.1 hf with rfl | hf
    · rw [List.find?_cons_of_pos (by rw [beq_self_eq_true])]
    · have hne : ¬ (g.key == f.key) = true := fun heq =>
        hkeys.1 (beq_iff_eq.1 heq ▸ List.mem_map_of_mem hf)
      rw [List.find?_cons_of_neg (p := fun g : Field ρ => g.key == f.key) hne, ih hkeys.2 hf]

theorem takes_of_written {fields : List (Field ρ)} {v w : ρ} {members : List (String × Json)}
    (h : Field.Written fields v members w) (hfield : ∀ f ∈ fields, r.field? f.key = some f)
    (hkeys : (fields.map Field.key).Nodup) {seen : List String}
    (hnew : ∀ f ∈ fields, f.key ∉ seen) :
    ∃ seen', r.Takes ⟨v, seen⟩ members ⟨w, seen'⟩ ∧ (∀ key ∈ seen, key ∈ seen') ∧
      ∀ f ∈ fields, f.required = true → f.key ∈ seen' := by
  induction h generalizing seen with
  | nil v => exact ⟨seen, .nil _, fun _ h => h, nofun⟩
  | @member f fields v w u j members hread _ ih =>
    rw [List.map_cons, List.nodup_cons] at hkeys
    obtain ⟨hf, hfields⟩ := List.forall_mem_cons.1 hfield
    obtain ⟨hfnew, hmore⟩ := List.forall_mem_cons.1 hnew
    have hnew : ∀ g ∈ fields, g.key ∉ f.key :: seen := fun g hg hkey => by
      rcases List.mem_cons.1 hkey with hkey | hkey
      · exact hkeys.1 (hkey ▸ List.mem_map_of_mem hg)
      · exact hmore g hg hkey
    obtain ⟨seen', htakes, hseen, hrequired⟩ := ih hfields hkeys.2 hnew
    have hhas : (⟨v, seen⟩ : Partial ρ).has f.key = false := by
      rw [Partial.has, List.contains_eq_mem, decide_eq_false_iff_not]
      exact hfnew
    refine ⟨seen', .cons hf hhas hread htakes, fun key hkey => hseen key (.tail _ hkey), ?_⟩
    exact List.forall_mem_cons.2 ⟨fun _ => hseen _ (.head _), hrequired⟩
  | @omitted f fields v u members hoptional _ ih =>
    rw [List.map_cons, List.nodup_cons] at hkeys
    obtain ⟨seen', htakes, hseen, hrequired⟩ := ih (List.forall_mem_cons.1 hfield).2 hkeys.2
      (List.forall_mem_cons.1 hnew).2
    refine ⟨seen', htakes, hseen, List.forall_mem_cons.2 ⟨fun hf => ?_, hrequired⟩⟩
    rw [hoptional] at hf
    cases hf

theorem finish_eq {p : Partial ρ} (h : ∀ f ∈ r.fields, f.required = true → f.key ∈ p.seen) :
    r.finish p = .ok p.value := by
  have hnone : (r.fields.find? fun f => f.required && !p.has f.key) = none := by
    rw [List.find?_eq_none]
    intro f hf hmissing
    rw [Bool.and_eq_true, Bool.not_eq_true', Partial.has, List.contains_eq_mem,
      decide_eq_false_iff_not] at hmissing
    exact hmissing.2 (h f hf hmissing.1)
  rw [finish, hnone]

/-- **A record is read from the object of its members**, in whatever order they are written. -/
theorem decoder_reads_perm {fields : List (Field ρ)} {members : List (String × Json)} {v : ρ}
    (h : Field.Written fields r.defaults members v) (hperm : fields.Perm r.fields)
    (hkeys : (r.fields.map Field.key).Nodup) {levels : Nat} (hlevels : 0 < levels) :
    (r.decoder levels).Reads (.object members) v := by
  obtain ⟨levels, rfl⟩ := Nat.exists_eq_succ_of_ne_zero (Nat.ne_of_gt hlevels)
  have hfield : ∀ f ∈ fields, r.field? f.key = some f :=
    fun f hf => field?_key hkeys (hperm.mem_iff.1 hf)
  have hnew : ∀ f ∈ fields, f.key ∉ ([] : List String) := fun _ _ => List.not_mem_nil
  obtain ⟨seen, htakes, -, hrequired⟩ :=
    takes_of_written h hfield ((hperm.map Field.key).nodup_iff.2 hkeys) hnew
  have hfinish : r.finish ⟨v, seen⟩ = .ok v :=
    finish_eq fun f hf => hrequired f (hperm.mem_iff.2 hf)
  constructor
  · intro rest
    obtain ⟨s, htext, hobject⟩ := htakes.readObject rest
    rw [htext]
    show (do
      let (p, s) ← Decoder.readObject r.readMember r.start s
      let value ← r.finish p
      Except.ok (value, s)) = _
    rw [show r.start = ⟨r.defaults, []⟩ from rfl, hobject]
    show (do
      let value ← r.finish ⟨v, seen⟩
      Except.ok (value, rest)) = _
    rw [hfinish]
    rfl
  · show (do
      let p ← members.foldlM r.memberFromJson r.start
      r.finish p) = _
    rw [show r.start = ⟨r.defaults, []⟩ from rfl, htakes.foldlM_fromJson]
    exact hfinish

theorem decoder_reads {members : List (String × Json)} {v : ρ}
    (h : Field.Written r.fields r.defaults members v) (hkeys : (r.fields.map Field.key).Nodup)
    {levels : Nat} (hlevels : 0 < levels) : (r.decoder levels).Reads (.object members) v :=
  decoder_reads_perm h (.refl _) hkeys hlevels

end Record

end

end Scim
