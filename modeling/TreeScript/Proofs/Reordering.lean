import TreeScript.Proofs.Layers
import TreeScript.Proofs.Locality

/-!
# Fields in another order

`Node.Reordered` relates a document to the ones that have the entries of its mappings in another
order. The checks of a node agree on both: they give related results, or both of them fail, and if
the fields are known ones that come once, they fail with the same error.
-/

namespace TreeScript

theorem exists_mem_of_forall₂ {α β : Type} {R : α → β → Prop} {as : List α} {bs : List β}
    (h : List.Forall₂ R as bs) {a : α} (ha : a ∈ as) : ∃ b ∈ bs, R a b := by
  induction h with
  | nil => cases ha
  | cons hfirst _ ih =>
      rcases List.mem_cons.1 ha with rfl | ha
      · exact ⟨_, List.mem_cons_self, hfirst⟩
      · obtain ⟨b, hb, hrel⟩ := ih ha
        exact ⟨b, List.mem_cons_of_mem _ hb, hrel⟩

/-! ## Documents in another order -/

namespace Yaml.Node

/-- The other node is the same one but for the order of entries, in any of its mappings. -/
inductive Reordered : Node → Node → Prop where
  | scalar {label text} : Reordered (.scalar label text) (.scalar label text)
  | sequence {label items items'} : List.Forall₂ Reordered items items' →
    Reordered (.sequence label items) (.sequence label items')
  | mapping {label entries entries'} {parts : List (Node × Node)} :
    List.Forall₂ Reordered (entries.map Prod.fst) (parts.map Prod.fst) →
    List.Forall₂ Reordered (entries.map Prod.snd) (parts.map Prod.snd) → parts.Perm entries' →
    Reordered (.mapping label entries) (.mapping label entries')
  | alias {position name target target'} : Reordered target target' →
    Reordered (.alias position name target) (.alias position name target')
  | endless {position} : Reordered (.endless position) (.endless position)

namespace Reordered

variable {n n' : Node}

theorem text_eq (h : Reordered n n') : n'.text = n.text := by
  cases h <;> rfl

theorem position_eq (h : Reordered n n') : n'.position = n.position := by
  cases h <;> rfl

theorem deref (h : Reordered n n') : Reordered n.deref n'.deref := by
  fun_induction Node.deref n generalizing n' with
  | case1 position name target ih =>
      cases h with
      | «alias» htarget =>
          have hderef := ih htarget
          exact hderef
  | case2 | case3 | case4 | case5 =>
      cases h
      constructor <;> assumption

mutual

theorem refl (n : Node) : Reordered n n := by
  match n with
  | .scalar label text => exact .scalar
  | .sequence label items => exact .sequence (refl_items items)
  | .mapping label entries =>
      obtain ⟨hkeys, hvalues⟩ := refl_entries entries
      exact .mapping hkeys hvalues (.refl entries)
  | .alias position name target => exact .alias (refl target)
  | .endless position => exact .endless

theorem refl_items (items : List Node) : List.Forall₂ Reordered items items := by
  match items with
  | [] => exact .nil
  | item :: rest => exact .cons (refl item) (refl_items rest)

theorem refl_entries (entries : List (Node × Node)) :
    List.Forall₂ Reordered (entries.map Prod.fst) (entries.map Prod.fst) ∧
      List.Forall₂ Reordered (entries.map Prod.snd) (entries.map Prod.snd) := by
  match entries with
  | [] => exact ⟨.nil, .nil⟩
  | (key, value) :: rest =>
      obtain ⟨hkeys, hvalues⟩ := refl_entries rest
      exact ⟨.cons (refl key) hkeys, .cons (refl value) hvalues⟩

end

theorem of_perm {label : Label} {entries entries' : List (Node × Node)}
    (h : entries.Perm entries') : Reordered (.mapping label entries) (.mapping label entries') :=
  .mapping (refl_entries entries).1 (refl_entries entries).2 h

end Reordered

def EntryWise (entries parts : List (Node × Node)) : Prop :=
  List.Forall₂ (fun a b => Reordered a.1 b.1 ∧ Reordered a.2 b.2) entries parts

theorem entryWise_of_keys_values {entries parts : List (Node × Node)}
    (hkeys : List.Forall₂ Reordered (entries.map Prod.fst) (parts.map Prod.fst))
    (hvalues : List.Forall₂ Reordered (entries.map Prod.snd) (parts.map Prod.snd)) :
    EntryWise entries parts := by
  rw [List.forall₂_map_left_iff, List.forall₂_map_right_iff] at hkeys hvalues
  exact List.Forall₂.mp (fun a b hkey hvalue => ⟨hkey, hvalue⟩) hkeys hvalues

namespace EntryWise

variable {entries parts : List (Node × Node)}

theorem texts_eq (h : EntryWise entries parts) :
    parts.map (fun entry => entry.1.text) = entries.map fun entry => entry.1.text := by
  induction h with
  | nil => rfl
  | cons hentry _ ih => rw [List.map_cons, List.map_cons, hentry.1.text_eq, ih]

theorem exists_right (h : EntryWise entries parts) :
    ∀ entry ∈ entries, ∃ part ∈ parts,
      part.1.text = entry.1.text ∧ Reordered entry.2 part.2 := by
  intro entry hmem
  obtain ⟨part, hpart, htext, hsame⟩ := exists_mem_of_forall₂ h hmem
  exact ⟨part, hpart, htext.text_eq, hsame⟩

theorem exists_left (h : EntryWise entries parts) :
    ∀ part ∈ parts, ∃ entry ∈ entries,
      part.1.text = entry.1.text ∧ Reordered entry.2 part.2 := by
  intro part hmem
  obtain ⟨entry, hentry, htext, hsame⟩ := exists_mem_of_forall₂ h.flip hmem
  exact ⟨entry, hentry, htext.text_eq, hsame⟩

end EntryWise

end Yaml.Node

namespace Program

open Yaml (Node Label)

open Format

/-! ## Computations with the same outcome -/

/-- Both computations give results that are related, or both fail. Their errors are the same where
a condition holds. -/
inductive Agree (P : Prop) {α β : Type} (R : α → β → Prop) :
    Except DecodeError α → Except DecodeError β → Prop where
  | ok {a b} : R a b → Agree P R (.ok a) (.ok b)
  | error {e e'} : (P → e' = e) → Agree P R (.error e) (.error e')

section Agree

variable {P Q : Prop} {α β γ δ : Type} {R : α → β → Prop} {S : γ → δ → Prop}

theorem Agree.bind {x : Except DecodeError α} {y : Except DecodeError β}
    {next : α → Except DecodeError γ} {next' : β → Except DecodeError δ} (h : Agree P R x y)
    (hnext : ∀ a b, R a b → Agree P S (next a) (next' b)) :
    Agree P S (x >>= next) (y >>= next') := by
  cases h with
  | ok hab => exact hnext _ _ hab
  | error he => exact .error he

theorem Agree.bind_same {x y : Except DecodeError α} {next : α → Except DecodeError γ}
    {next' : α → Except DecodeError δ} (h : Agree P Eq x y)
    (hnext : ∀ a, Agree P S (next a) (next' a)) : Agree P S (x >>= next) (y >>= next') :=
  h.bind fun a _ hab => hab ▸ hnext a

theorem Agree.of_ok {x : Except DecodeError α} {y : Except DecodeError β} {a : α}
    (h : Agree P R x y) (hx : x = .ok a) : ∃ b, y = .ok b ∧ R a b := by
  cases h with
  | ok hab =>
      cases hx
      exact ⟨_, rfl, hab⟩
  | error _ => cases hx

theorem Agree.of_error {x : Except DecodeError α} {y : Except DecodeError β} {e : DecodeError}
    (h : Agree P R x y) (hx : x = .error e) : ∃ e', y = .error e' ∧ (P → e' = e) := by
  cases h with
  | ok _ => cases hx
  | error he =>
      cases hx
      exact ⟨_, rfl, he⟩

theorem Agree.mono {x : Except DecodeError α} {y : Except DecodeError β} (h : Agree P R x y)
    (hP : Q → P) : Agree Q R x y := by
  cases h with
  | ok hab => exact .ok hab
  | error he => exact .error fun hQ => he (hP hQ)

theorem agree_of_eq {x y : Except DecodeError α} (h : y = x) : Agree P Eq x y := by
  subst h
  cases y with
  | ok a => exact .ok rfl
  | error e => exact .error fun _ => rfl

theorem agree_complain {n n' : Node} (h : n.Reordered n') (complaint : Complaint) :
    Agree P R (complain n complaint) (complain n' complaint) :=
  .error fun _ => by rw [h.position_eq]

end Agree

/-! ## Fields -/

/-- If the node has fields, they are allowed ones and each of them comes once. -/
def Known (allowed : List String) (body : Node) : Prop :=
  ∀ label entries, body = .mapping label entries → Record body allowed entries

theorem record_congr {label : Label} {allowed : List String} {entries entries' : Entries}
    (h : (entries.map fun entry => entry.1.text).Perm (entries'.map fun entry => entry.1.text)) :
    Record (.mapping label entries) allowed entries ↔
      Record (.mapping label entries') allowed entries' := by
  have hiff (entries : Entries) : Record (.mapping label entries) allowed entries ↔
      (∀ name ∈ entries.map fun entry => entry.1.text, name ∈ allowed) ∧
        (entries.map fun entry => entry.1.text).Nodup := by
    rw [List.forall_mem_map, List.Nodup, List.pairwise_map]
    exact ⟨fun h => ⟨h.known, h.distinct⟩, fun h => ⟨⟨label, rfl⟩, h.1, h.2⟩⟩
  rw [hiff, hiff, h.nodup_iff]
  simp only [h.mem_iff]

def direct (entries : Entries) : Entries := entries.map fun entry => (entry.1, entry.2.deref)

theorem readFields_direct (allowed : List String) (entries : Entries) (before : Fields) :
    readFields allowed (direct entries) before = readFields allowed entries before := by
  induction entries generalizing before with
  | nil => rfl
  | cons entry rest ih =>
      obtain ⟨key, value⟩ := entry
      simp only [direct, List.map_cons, readFields, Node.deref_deref]
      split
      · rfl
      · split
        · rfl
        · exact ih _

theorem record_direct_iff {label : Label} {allowed : List String} {entries : Entries} :
    Record (.mapping label (direct entries)) allowed (direct entries) ↔
      Record (.mapping label entries) allowed entries := by
  apply record_congr
  rw [direct, List.map_map]
  exact .refl _

theorem fields_mapping_iff {label : Label} {allowed : List String} {entries : Entries}
    {f : Fields} : fields (.mapping label entries) allowed = .ok f ↔
      Record (.mapping label entries) allowed entries ∧ f = fieldsOf (direct entries) := by
  change readFields allowed entries [] = .ok f ↔ _
  have hdirect : ∀ entry ∈ direct entries, entry.2.deref = entry.2 :=
    List.forall_mem_map.2 fun entry _ => entry.2.deref_deref
  rw [← readFields_direct, readFields_iff hdirect, ← record_direct_iff]
  constructor
  · intro ⟨hknown, hdistinct, _, hf⟩
    exact ⟨⟨⟨label, rfl⟩, hknown, hdistinct⟩, hf.trans (List.append_nil _)⟩
  · intro ⟨hrecord, hf⟩
    exact ⟨hrecord.known, hrecord.distinct, fun _ _ => rfl, hf.trans (List.append_nil _).symm⟩

def Fields.Reordered (f f' : Fields) : Prop :=
  ∀ name, Option.Rel Node.Reordered (f.lookup name) (f'.lookup name)

theorem lookup_direct_iff {label : Label} {allowed : List String} {entries : Entries}
    (h : Record (.mapping label entries) allowed entries) {name : String} {v : Node} :
    (fieldsOf (direct entries)).lookup name = some v ↔
      ∃ entry ∈ entries, entry.1.text = name ∧ entry.2.deref = v := by
  rw [lookup_iff (record_direct_iff.2 h)]
  constructor
  · intro ⟨key, hmem, hname⟩
    obtain ⟨entry, hentry, heq⟩ := List.mem_map.1 hmem
    cases heq
    exact ⟨entry, hentry, hname, rfl⟩
  · intro ⟨entry, hentry, hname, hv⟩
    exact ⟨entry.1, List.mem_map.2 ⟨entry, hentry, by rw [hv]⟩, hname⟩

/-- Two lists of fields are the same by name if each field of one has its counterpart in the other
one. -/
theorem reordered_of_lookup {f f' : Fields}
    (hright : ∀ name v, f.lookup name = some v → ∃ v', f'.lookup name = some v' ∧ v.Reordered v')
    (hleft : ∀ name v', f'.lookup name = some v' → ∃ v, f.lookup name = some v) :
    Fields.Reordered f f' := by
  intro name
  cases hv : f.lookup name with
  | some v =>
      obtain ⟨v', hv', hsame⟩ := hright name v hv
      rw [hv']
      exact .some hsame
  | none =>
      cases hv' : f'.lookup name with
      | none => exact .none
      | some v' =>
          obtain ⟨v, hsome⟩ := hleft name v' hv'
          rw [hv] at hsome
          cases hsome

theorem reordered_fieldsOf {label : Label} {allowed : List String}
    {entries parts entries' : Entries} (hparts : Node.EntryWise entries parts)
    (hperm : parts.Perm entries')
    (hrecord : Record (.mapping label entries) allowed entries)
    (hrecord' : Record (.mapping label entries') allowed entries') :
    Fields.Reordered (fieldsOf (direct entries)) (fieldsOf (direct entries')) := by
  apply reordered_of_lookup
  · intro name v hv
    obtain ⟨entry, hentry, hname, hv⟩ := (lookup_direct_iff hrecord).1 hv
    obtain ⟨part, hpart, htext, hsame⟩ := hparts.exists_right entry hentry
    subst hv
    exact ⟨part.2.deref, (lookup_direct_iff hrecord').2
      ⟨part, hperm.mem_iff.1 hpart, htext.trans hname, rfl⟩, hsame.deref⟩
  · intro name v' hv'
    obtain ⟨part, hpart, hname, -⟩ := (lookup_direct_iff hrecord').1 hv'
    obtain ⟨entry, hentry, htext, -⟩ := hparts.exists_left part (hperm.mem_iff.2 hpart)
    exact ⟨entry.2.deref, (lookup_direct_iff hrecord).2
      ⟨entry, hentry, htext.symm.trans hname, rfl⟩⟩

theorem agree_fields {body body' : Node} (h : body.Reordered body') (allowed : List String) :
    Agree (Known allowed body) Fields.Reordered (fields body allowed) (fields body' allowed) := by
  cases h with
  | scalar | sequence _ | «alias» _ | endless => exact .error fun _ => rfl
  | @mapping label entries entries' parts hkeys hvalues hperm =>
      have hparts := Node.entryWise_of_keys_values hkeys hvalues
      have hnames : (entries.map fun entry => entry.1.text).Perm
          (entries'.map fun entry => entry.1.text) := by
        rw [← hparts.texts_eq]
        exact hperm.map _
      by_cases hrecord : Record (.mapping label entries) allowed entries
      · have hrecord' := (record_congr hnames).1 hrecord
        rw [fields_mapping_iff.2 ⟨hrecord, rfl⟩, fields_mapping_iff.2 ⟨hrecord', rfl⟩]
        exact .ok (reordered_fieldsOf hparts hperm hrecord hrecord')
      · have hrecord' := mt (record_congr hnames).2 hrecord
        cases hf : fields (.mapping label entries) allowed with
        | ok f => exact absurd (fields_mapping_iff.1 hf).1 hrecord
        | error e =>
            cases hf' : fields (.mapping label entries') allowed with
            | ok f' => exact absurd (fields_mapping_iff.1 hf').1 hrecord'
            | error e' => exact .error fun hknown => absurd (hknown label entries rfl) hrecord

/-! ## Checks -/

section Checks

variable {P : Prop} {n n' key key' body body' : Node} {f f' : Fields}

theorem agree_variant (h : n.Reordered n') :
    Agree P (fun parts parts' => parts.1.Reordered parts'.1 ∧ parts.2.Reordered parts'.2)
      (variant n) (variant n') := by
  have hderef := h.deref
  unfold variant
  generalize n.deref = m at hderef
  generalize n'.deref = m' at hderef
  cases hderef with
  | scalar | sequence _ | «alias» _ | endless => exact .error fun _ => rfl
  | @mapping label entries entries' parts hkeys hvalues hperm =>
      have hparts := Node.entryWise_of_keys_values hkeys hvalues
      -- Only a list of one entry is read, and there is one order of such a list.
      cases hparts with
      | nil =>
          cases List.nil_perm.1 hperm
          exact .error fun _ => rfl
      | cons hentry hrest =>
          cases hrest with
          | nil =>
              cases List.singleton_perm.1 hperm
              exact .ok ⟨hentry.1, hentry.2.deref⟩
          | cons _ _ =>
              match entries', hperm.length_eq with
              | _ :: _ :: _, _ => exact .error fun _ => rfl

theorem agree_required (h : n.Reordered n') (hf : f.Reordered f') (name : String) :
    Agree P Node.Reordered (required n f name) (required n' f' name) := by
  have hname := hf name
  unfold required
  generalize f.lookup name = v at hname
  generalize f'.lookup name = v' at hname
  cases hname with
  | some hv => exact .ok hv
  | none => exact agree_complain h _

theorem integer?_eq (h : n.Reordered n') : integer? n' = integer? n := by
  cases h <;> rfl

theorem agree_lineOf (hf : f.Reordered f') (hkey : key.Reordered key') :
    Agree P Eq (lineOf f key) (lineOf f' key') := by
  have hline := hf "line"
  unfold lineOf
  generalize f.lookup "line" = v at hline
  generalize f'.lookup "line" = v' at hline
  apply agree_of_eq
  cases hline with
  | some hv => simp only [integer?_eq hv, complain, hv.position_eq]
  | none => simp only [hkey.position_eq]

theorem agree_identifier (h : n.Reordered n') (what : String) :
    Agree P Eq (identifier n what) (identifier n' what) := by
  apply agree_of_eq
  cases h <;> rfl

theorem agree_operator (h : n.Reordered n') (hf : f.Reordered f') (line : Int)
    (allowed : List Token.Kind) :
    Agree P Eq (operator n f line allowed) (operator n' f' line allowed) := by
  refine (agree_required h hf "op").bind fun op op' hop => ?_
  apply agree_of_eq
  cases hop <;> rfl

end Checks

end Program

end TreeScript
