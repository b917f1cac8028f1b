import Mathlib

/-! # Loops that fill a record from keyed input

A decoder reads keyed values in a loop and writes each into its output record.
`Body` is one turn of such a loop over a reader with a size; `FieldTable` is the
table of keys, value scanners and record fields the turns choose from.

## Implementation notes

The output record may hold old values, since decoders reuse their records. The
main rule is that a table loop is an overlay: it reads from the input alone a list
of assignments and applies them to whatever the record held. The loops take fuel;
a turn that goes on consumes input, so the input's size is fuel enough. -/

namespace SmoArchipelago.Library.FieldLoop

variable {ρ σ τ : Type*} {size : ρ → ℕ}

/-- How a turn of a loop ends. -/
inductive Turn where
  | again
  | stop (ok : Bool)
  deriving DecidableEq

/-- One turn of a loop; a turn that goes on has consumed input. -/
structure Body (size : ρ → ℕ) (σ : Type*) where
  turn : ρ → σ → Turn × ρ × σ
  progress : ∀ r s, (turn r s).1 = .again → size (turn r s).2.1 < size r
  shrinks : ∀ r s, size (turn r s).2.1 ≤ size r

/-- Take turns until one stops. -/
def loop (body : Body size σ) : ℕ → ρ → σ → Bool × ρ × σ
  | 0, r, s => (false, r, s)
  | n + 1, r, s =>
      match (body.turn r s).1 with
      | .stop ok => (ok, (body.turn r s).2)
      | .again => loop body n (body.turn r s).2.1 (body.turn r s).2.2

theorem loop_stop {body : Body size σ} {r : ρ} {s : σ} {ok : Bool} (n : ℕ)
    (h : (body.turn r s).1 = .stop ok) :
    loop body (n + 1) r s = (ok, (body.turn r s).2) := by
  simp only [loop, h]

theorem loop_again {body : Body size σ} {r : ρ} {s : σ} (n : ℕ)
    (h : (body.turn r s).1 = .again) :
    loop body (n + 1) r s = loop body n (body.turn r s).2.1 (body.turn r s).2.2 := by
  simp only [loop, h]

theorem loop_shrinks (body : Body size σ) (n : ℕ) (r : ρ) (s : σ) :
    size (loop body n r s).2.1 ≤ size r := by
  induction n generalizing r s with
  | zero => exact le_rfl
  | succ n ih =>
      cases h : (body.turn r s).1 with
      | stop ok => rw [loop_stop n h]; exact body.shrinks r s
      | again =>
          rw [loop_again n h]
          exact (ih _ _).trans (body.shrinks r s)

/-- Two turns read the same input the same way and keep the relation. -/
def Agree {β : Type*} (going : β → Prop) (R : σ → τ → Prop)
    (x : β × ρ × σ) (y : β × ρ × τ) : Prop :=
  x.1 = y.1 ∧ x.2.1 = y.2.1 ∧ (going x.1 → R x.2.2 y.2.2)

/-- A turn counts as sound unless it stops with a failure. -/
def Turn.Sound (t : Turn) : Prop := t ≠ .stop false

/-- Loops whose turns agree agree: same verdict, same rest, related records. -/
theorem loop_agree {R : σ → τ → Prop} {body : Body size σ} {body' : Body size τ}
    (turns : ∀ r s t, R s t → Agree Turn.Sound R (body.turn r s) (body'.turn r t))
    (n : ℕ) (r : ρ) {s : σ} {t : τ} (start : R s t) :
    Agree (· = true) R (loop body n r s) (loop body' n r t) := by
  induction n generalizing r s t with
  | zero => exact ⟨rfl, rfl, fun _ => start⟩
  | succ n ih =>
      obtain ⟨same, rest, kept⟩ := turns r s t start
      cases h : (body.turn r s).1 with
      | stop ok =>
          rw [loop_stop n h, loop_stop n (same ▸ h)]
          refine ⟨rfl, rest, fun success => kept ?_⟩
          rw [h, Turn.Sound]
          intro failed
          obtain rfl : ok = false := Turn.stop.inj failed
          cases success
      | again =>
          rw [loop_again n h, loop_again n (same ▸ h), ← rest]
          exact ih _ (kept (by rw [h]; exact Turn.noConfusion))

/-- A scanner reads a value or fails; it never puts input back. -/
structure Scanner (size : ρ → ℕ) (α : Type*) where
  scan : ρ → Option α × ρ
  shrinks : ∀ r, size (scan r).2 ≤ size r

/-- A scanner whose success consumes input. -/
structure StrictScanner (size : ρ → ℕ) (α : Type*) extends Scanner size α where
  progress : ∀ r a, (scan r).1 = some a → size (scan r).2 < size r

/-- Scan a value and convert it. -/
def Scanner.map {α β : Type*} (f : α → β) (x : Scanner size α) : Scanner size β where
  scan r := ((x.scan r).1.map f, (x.scan r).2)
  shrinks := x.shrinks

/-- Scan a value and convert it, consuming input as before. -/
def StrictScanner.map {α β : Type*} (f : α → β) (x : StrictScanner size α) :
    StrictScanner size β where
  toScanner := x.toScanner.map f
  progress r b h := by
    obtain ⟨a, ha, -⟩ := Option.map_eq_some_iff.1 h
    exact x.progress r a ha

/-- One element of an array: it consumes input when it is read. -/
structure Element (size : ρ → ℕ) (σ : Type*) where
  act : ρ → σ → Bool × ρ × σ
  progress : ∀ r s, (act r s).1 = true → size (act r s).2.1 < size r
  shrinks : ∀ r s, size (act r s).2.1 ≤ size r

/-- Scan an element, then store it. -/
def StrictScanner.element {α : Type*} (x : StrictScanner size α) (store : α → σ → σ) :
    Element size σ where
  act r s :=
    match x.scan r with
    | (none, r') => (false, r', s)
    | (some a, r') => (true, r', store a s)
  progress r s := by
    have less := x.progress r
    revert less
    rcases x.scan r with ⟨_ | a, r'⟩
    · exact fun _ h => absurd h Bool.false_ne_true
    · exact fun less _ => less a rfl
  shrinks r s := by
    have shorter := x.shrinks r
    revert shorter
    rcases x.scan r with ⟨_ | a, r'⟩ <;> exact id

/-- Storing keeps a relation, so scanning and storing does. -/
theorem element_agree {α : Type*} {R : σ → τ → Prop} (x : StrictScanner size α)
    {store : α → σ → σ} {store' : α → τ → τ}
    (keep : ∀ a s t, R s t → R (store a s) (store' a t)) (r : ρ) (s : σ) (t : τ)
    (related : R s t) :
    Agree (· = true) R ((x.element store).act r s) ((x.element store').act r t) := by
  simp only [StrictScanner.element]
  rcases x.scan r with ⟨_ | a, r'⟩
  · exact ⟨rfl, rfl, fun h => absurd h Bool.false_ne_true⟩
  · exact ⟨rfl, rfl, fun _ => keep a s t related⟩

/-- The loop body `while (hasMore())` over the elements of an array. -/
def arrayBody (more : ρ → Bool) (element : Element size σ) : Body size σ where
  turn r s :=
    if more r then
      (if (element.act r s).1 then .again else .stop false, (element.act r s).2)
    else (.stop true, r, s)
  progress r s h := by
    split_ifs at h ⊢ with left ok
    exact element.progress r s ok
  shrinks r s := by
    by_cases left : more r = true
    · rw [if_pos left]
      exact element.shrinks r s
    · rw [if_neg left]

/-- Array loops whose elements agree agree. -/
theorem arrayLoop_agree {R : σ → τ → Prop} (more : ρ → Bool) {x : Element size σ}
    {y : Element size τ}
    (elements : ∀ r s t, R s t → Agree (· = true) R (x.act r s) (y.act r t))
    (n : ℕ) (r : ρ) {s : σ} {t : τ} (start : R s t) :
    Agree (· = true) R (loop (arrayBody more x) n r s) (loop (arrayBody more y) n r t) := by
  refine loop_agree (fun r s t related => ?_) n r start
  simp only [arrayBody]
  by_cases left : more r = true
  · obtain ⟨same, rest, kept⟩ := elements r s t related
    rw [if_pos left, if_pos left]
    refine ⟨by simp only [same], rest, fun sound => kept ?_⟩
    by_contra failed
    simp [failed, Turn.Sound] at sound
  · rw [if_neg left, if_neg left]
    exact ⟨rfl, rfl, fun _ => related⟩

/-- What a decoder does on one key. -/
structure Handler (size : ρ → ℕ) (κ σ : Type*) where
  key : κ
  act : ρ → σ → Bool × ρ × σ
  shrinks : ∀ r s, size (act r s).2.1 ≤ size r

variable {κ : Type*} [DecidableEq κ]

/-- The handler of a key; keys without one are refused. -/
def handlerOf (handlers : List (Handler size κ σ)) (k : κ) : Option (Handler size κ σ) :=
  handlers.find? fun h => h.key = k

/-- Read a key and let its handler read the value. -/
def fieldTurn (next : StrictScanner size κ) (handlers : List (Handler size κ σ)) (r : ρ) (s : σ) :
    Turn × ρ × σ :=
  match next.scan r with
  | (none, r') => (.stop true, r', s)
  | (some k, r') =>
      match handlerOf handlers k with
      | none => (.stop false, r', s)
      | some h =>
          (if (h.act r' s).1 then .again else .stop false, (h.act r' s).2)

/-- The loop body `while (nextField(key))` over a list of handlers. -/
def fieldBody (next : StrictScanner size κ) (handlers : List (Handler size κ σ)) :
    Body size σ where
  turn := fieldTurn next handlers
  progress r s h := by
    unfold fieldTurn at h ⊢
    have less := next.progress r
    revert h less
    rcases next.scan r with ⟨_ | k, r'⟩
    · simp
    · dsimp only
      cases handlerOf handlers k with
      | none => simp
      | some h =>
          intro _ less
          exact (h.shrinks r' s).trans_lt (less k rfl)
  shrinks r s := by
    unfold fieldTurn
    have shorter := next.shrinks r
    revert shorter
    rcases next.scan r with ⟨_ | k, r'⟩
    · exact id
    · dsimp only
      cases handlerOf handlers k with
      | none => exact id
      | some h => exact fun shorter => (h.shrinks r' s).trans shorter

/-- Two handlers of one key that agree on related records. -/
def HandlersAgree (R : σ → τ → Prop) (h : Handler size κ σ) (h' : Handler size κ τ) : Prop :=
  h.key = h'.key ∧ ∀ r s t, R s t → Agree (· = true) R (h.act r s) (h'.act r t)

theorem handlerOf_agree {R : σ → τ → Prop} {hs : List (Handler size κ σ)}
    {hs' : List (Handler size κ τ)} (all : List.Forall₂ (HandlersAgree R) hs hs') (k : κ) :
    (handlerOf hs k = none ∧ handlerOf hs' k = none) ∨
      ∃ h h', handlerOf hs k = some h ∧ handlerOf hs' k = some h' ∧ HandlersAgree R h h' := by
  induction all with
  | nil => exact .inl ⟨rfl, rfl⟩
  | @cons h h' hs hs' agree _ ih =>
      by_cases hit : h.key = k
      · refine .inr ⟨h, h', ?_, ?_, agree⟩
        · simp [handlerOf, hit]
        · simp [handlerOf, ← agree.1, hit]
      · have skip : handlerOf (h :: hs) k = handlerOf hs k := by simp [handlerOf, hit]
        have skip' : handlerOf (h' :: hs') k = handlerOf hs' k := by
          simp [handlerOf, ← agree.1, hit]
        rw [skip, skip']
        exact ih

/-- Turns whose handlers agree agree. -/
theorem fieldTurn_agree {R : σ → τ → Prop} (next : StrictScanner size κ)
    {hs : List (Handler size κ σ)} {hs' : List (Handler size κ τ)}
    (all : List.Forall₂ (HandlersAgree R) hs hs') (r : ρ) (s : σ) (t : τ) (start : R s t) :
    Agree Turn.Sound R ((fieldBody next hs).turn r s) ((fieldBody next hs').turn r t) := by
  simp only [fieldBody, fieldTurn]
  rcases next.scan r with ⟨_ | k, r'⟩
  · exact ⟨rfl, rfl, fun _ => start⟩
  · rcases handlerOf_agree all k with ⟨none₁, none₂⟩ | ⟨h, h', some₁, some₂, -, agree⟩
    · simp only [none₁, none₂]
      exact ⟨rfl, rfl, fun _ => start⟩
    · simp only [some₁, some₂]
      obtain ⟨same, rest, kept⟩ := agree r' s t start
      refine ⟨by rw [same], rest, fun sound => kept ?_⟩
      by_contra failed
      simp [failed, Turn.Sound] at sound

/-- Decoding loops whose handlers agree agree. -/
theorem fieldLoop_agree {R : σ → τ → Prop} (next : StrictScanner size κ)
    {hs : List (Handler size κ σ)} {hs' : List (Handler size κ τ)}
    (all : List.Forall₂ (HandlersAgree R) hs hs') (n : ℕ) (r : ρ) {s : σ} {t : τ}
    (start : R s t) :
    Agree (· = true) R (loop (fieldBody next hs) n r s) (loop (fieldBody next hs') n r t) :=
  loop_agree (fieldTurn_agree next all) n r start

/-- A record field: its key on the wire, the scanner of its value and its place. -/
structure Field (size : ρ → ℕ) (κ σ : Type*) where
  key : κ
  α : Type
  value : Scanner size α
  get : σ → α
  set : α → σ → σ

/-- The value scanned for a field, ready to be written. -/
structure Assignment (size : ρ → ℕ) (κ σ : Type*) where
  field : Field size κ σ
  value : field.α

namespace Field

/-- Scan the value and write it; a failed scan writes nothing. -/
def act (f : Field size κ σ) (r : ρ) (s : σ) : Bool × ρ × σ :=
  match f.value.scan r with
  | (none, r') => (false, r', s)
  | (some v, r') => (true, r', f.set v s)

/-- The handler that writes the field. -/
def handler (f : Field size κ σ) : Handler size κ σ where
  key := f.key
  act := f.act
  shrinks r s := by
    have shorter := f.value.shrinks r
    unfold act
    revert shorter
    rcases f.value.scan r with ⟨_ | v, r'⟩ <;> exact id

/-- The handler that only notes what would be written. -/
def tracer (f : Field size κ σ) : Handler size κ (List (Assignment size κ σ)) where
  key := f.key
  act r as :=
    match f.value.scan r with
    | (none, r') => (false, r', as)
    | (some v, r') => (true, r', as ++ [⟨f, v⟩])
  shrinks r as := by
    have shorter := f.value.shrinks r
    revert shorter
    rcases f.value.scan r with ⟨_ | v, r'⟩ <;> exact id

end Field

/-- Write the assignments in order. -/
def applyAll (as : List (Assignment size κ σ)) (s : σ) : σ :=
  as.foldl (fun s a => a.field.set a.value s) s

omit [DecidableEq κ] in
theorem applyAll_append (as : List (Assignment size κ σ)) (f : Field size κ σ) (v : f.α) (s : σ) :
    applyAll (as ++ [⟨f, v⟩]) s = f.set v (applyAll as s) := by
  simp [applyAll]

/-- Writing either field leaves the other alone. -/
def Field.Apart (f g : Field size κ σ) : Prop :=
  (∀ v s, f.get (g.set v s) = f.get s) ∧ ∀ v s, g.get (f.set v s) = g.get s

/-- The fields of a record, none of which touches another. -/
structure FieldTable (size : ρ → ℕ) (κ σ : Type*) [DecidableEq κ] where
  fields : List (Field size κ σ)
  keys_nodup : (fields.map Field.key).Nodup
  get_set : ∀ f ∈ fields, ∀ v s, f.get (f.set v s) = v
  apart : fields.Pairwise Field.Apart
  ext : ∀ s t, (∀ f ∈ fields, f.get s = f.get t) → s = t

namespace FieldTable

/-- Decode into a record. -/
def parse (table : FieldTable size κ σ) (next : StrictScanner size κ) (n : ℕ) (r : ρ) (s : σ) :
    Bool × ρ × σ :=
  loop (fieldBody next (table.fields.map Field.handler)) n r s

/-- What the input assigns, whatever the record. -/
def assignments (table : FieldTable size κ σ) (next : StrictScanner size κ) (n : ℕ) (r : ρ) :
    Bool × ρ × List (Assignment size κ σ) :=
  loop (fieldBody next (table.fields.map Field.tracer)) n r []

/-- The keys among the assignments. -/
def Carries (as : List (Assignment size κ σ)) (k : κ) : Prop := ∃ a ∈ as, a.field.key = k

instance (as : List (Assignment size κ σ)) (k : κ) : Decidable (Carries as k) :=
  inferInstanceAs (Decidable (∃ a ∈ as, _))

/-- Every assignment is of a field of the table. -/
def Within (table : FieldTable size κ σ) (as : List (Assignment size κ σ)) : Prop :=
  ∀ a ∈ as, a.field ∈ table.fields

variable (table : FieldTable size κ σ) (next : StrictScanner size κ)

private theorem handlers_agree (s₀ : σ) {fields : List (Field size κ σ)}
    (sub : ∀ f ∈ fields, f ∈ table.fields) :
    List.Forall₂
      (HandlersAgree fun s as => s = applyAll as s₀ ∧ table.Within as)
      (fields.map Field.handler) (fields.map Field.tracer) := by
  induction fields with
  | nil => exact .nil
  | cons f fields ih =>
      refine .cons ⟨rfl, ?_⟩ (ih fun g hg => sub g (.tail f hg))
      rintro r s as ⟨rfl, within⟩
      simp only [Field.handler, Field.tracer, Field.act]
      rcases f.value.scan r with ⟨_ | v, r'⟩
      · exact ⟨rfl, rfl, fun h => absurd h Bool.false_ne_true⟩
      · refine ⟨rfl, rfl, fun _ => ⟨(applyAll_append as f v s₀).symm, ?_⟩⟩
        intro a ha
        rcases List.mem_append.1 ha with old | new
        · exact within a old
        · obtain rfl := List.mem_singleton.1 new
          exact sub f (.head fields)

/-- Decoding is an overlay: the input alone fixes the verdict, the rest and the
assignments, and these are applied to the record as it was. -/
theorem parse_overlay (n : ℕ) (r : ρ) (s : σ) :
    Agree (· = true) (fun s' as => s' = applyAll as s ∧ table.Within as)
      (table.parse next n r s) (table.assignments next n r) :=
  fieldLoop_agree next (table.handlers_agree s fun _ h => h) n r
    ⟨rfl, fun _ h => absurd h List.not_mem_nil⟩

variable {table}

/-- Writing one field leaves the fields of other keys alone. -/
theorem get_set_ne {f g : Field size κ σ} (hf : f ∈ table.fields) (hg : g ∈ table.fields)
    (ne : f.key ≠ g.key) (v : g.α) (s : σ) : f.get (g.set v s) = f.get s := by
  have : Std.Symm (@Field.Apart ρ σ size κ) := ⟨fun _ _ h => ⟨h.2, h.1⟩⟩
  exact (table.apart.forall hf hg fun e => ne (congrArg Field.key e)).1 v s

/-- A field no assignment carries keeps its value. -/
theorem get_applyAll_of_not_carries {as : List (Assignment size κ σ)} (within : table.Within as)
    {f : Field size κ σ} (hf : f ∈ table.fields) (absent : ¬ Carries as f.key) (s : σ) :
    f.get (applyAll as s) = f.get s := by
  induction as generalizing s with
  | nil => rfl
  | cons a as ih =>
      have other : f.key ≠ a.field.key := fun e => absent ⟨a, .head as, e.symm⟩
      have rest := ih (fun b hb => within b (.tail a hb))
        (fun ⟨b, hb, e⟩ => absent ⟨b, .tail a hb, e⟩) (a.field.set a.value s)
      exact rest.trans (get_set_ne hf (within a (.head as)) other a.value s)

/-- A field some assignment carries no longer depends on the record. -/
theorem get_applyAll_of_carries {as : List (Assignment size κ σ)} (within : table.Within as)
    {f : Field size κ σ} (hf : f ∈ table.fields)
    (only : ∀ g ∈ table.fields, g.key = f.key → g = f) (present : Carries as f.key) (s t : σ) :
    f.get (applyAll as s) = f.get (applyAll as t) := by
  induction as generalizing s t with
  | nil => obtain ⟨a, ha, -⟩ := present; cases ha
  | cons a as ih =>
      have within' : table.Within as := fun b hb => within b (.tail a hb)
      by_cases later : Carries as f.key
      · exact ih within' later _ _
      · have here : a.field.key = f.key := by
          obtain ⟨b, hb, e⟩ := present
          rcases List.mem_cons.1 hb with rfl | old
          · exact e
          · exact absurd ⟨b, old, e⟩ later
        obtain ⟨g, v⟩ := a
        obtain rfl : g = f := only g (within _ (.head as)) here
        have unchanged (s : σ) : g.get (applyAll as (g.set v s)) = v :=
          (get_applyAll_of_not_carries within' hf later _).trans (table.get_set g hf v s)
        exact (unchanged s).trans (unchanged t).symm

/-- Two overlays coincide exactly when the records agree off the carried keys. -/
theorem applyAll_eq_iff {as : List (Assignment size κ σ)} (within : table.Within as) (s t : σ) :
    applyAll as s = applyAll as t ↔
      ∀ f ∈ table.fields, ¬ Carries as f.key → f.get s = f.get t := by
  have only (f g : Field size κ σ) (hf : f ∈ table.fields) (hg : g ∈ table.fields)
      (e : g.key = f.key) : g = f := List.inj_on_of_nodup_map table.keys_nodup hg hf e
  constructor
  · intro same f hf absent
    have values := congrArg f.get same
    rwa [get_applyAll_of_not_carries within hf absent,
      get_applyAll_of_not_carries within hf absent] at values
  · intro agree
    refine table.ext _ _ fun f hf => ?_
    by_cases present : Carries as f.key
    · exact get_applyAll_of_carries within hf (fun g hg => only f g hf hg) present s t
    · rw [get_applyAll_of_not_carries within hf present,
        get_applyAll_of_not_carries within hf present]
      exact agree f hf present

end FieldTable

end SmoArchipelago.Library.FieldLoop
