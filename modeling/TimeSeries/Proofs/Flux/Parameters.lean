import TimeSeries.Flux.Query
import TimeSeries.Proofs.Flux.Operator

/-!
# Parameters are replaced by what they are bound to

A query refers to parameters in the properties of its operators and in the values of its
definitions. Writing it with some bindings is writing the query in which every bound reference is
replaced by its literal; a reference that is not bound is left as it is and stops both.

Writing goes on until the first fault, and the only faults are references that are not bound. So the
fault of a draft is found in the list of all references in the order in which they are written.
-/

namespace TimeSeries.Flux

variable (params : Parameters)

namespace Parameters

def isUnbound (name : String) : Bool := (params.get? name).isNone

/-- The fault of writing references one after the other. -/
def fault? (names : List String) : Option Error :=
  (names.find? params.isUnbound).map Error.unboundParameter

@[simp] theorem fault?_append (l m : List String) :
    params.fault? (l ++ m) = (params.fault? l).or (params.fault? m) := by
  rw [fault?, List.find?_append, Option.map_or, fault?, fault?]

end Parameters

namespace Draft

@[simp] theorem failure_ofText (s : String) : (ofText s).failure = none := rfl

@[simp] theorem failure_append (a b : Draft) : (a ++ b).failure = a.failure.or b.failure := by
  change (append a b).failure = _
  rw [append]
  cases h : a.failure with
  | none => rfl
  | some e => exact h

/-- Where each of several drafts fails at its own references, together they fail at the first
fault of all references. -/
theorem failure_joinWith {α : Type*} {draft : α → Draft} {references : α → List String}
    (h : ∀ x, (draft x).failure = params.fault? (references x)) (separator : String) (l : List α) :
    (joinWith separator (l.map draft)).failure = params.fault? (l.flatMap references) := by
  induction l with
  | nil => rfl
  | cons x l ih =>
      rw [List.flatMap_cons, Parameters.fault?_append, ← ih, ← h]
      cases l with
      | nil => simp [joinWith]
      | cons y l => simp [joinWith]

end Draft

namespace Property

/-- The parameters that a property refers to. -/
def references : Property → List String
  | .parameter name => [name]
  | _ => []

/-- The property with a bound parameter replaced by its literal. -/
def substitute : Property → Property
  | .parameter name =>
    match params.get? name with
    | some l => .literal l
    | none => .parameter name
  | p => p

theorem text?_substitute (p : Property) :
    (p.substitute params).text? KeyMap.empty = p.text? params := by
  cases p with
  | parameter name =>
      rw [substitute, text?]
      cases params.get? name with
      | none => rfl
      | some l => rfl
  | _ => rfl

/-- The fault of a property is a reference that is not bound. -/
theorem fault?_references (p : Property) :
    params.fault? p.references =
      match p.text? params with
      | .error e => some e
      | .ok _ => none := by
  cases p with
  | parameter name =>
      cases h : params.get? name <;>
        simp [references, Parameters.fault?, Parameters.isUnbound, text?, h]
  | _ => rfl

end Property

namespace Setting

def references : Setting → List String
  | .define _ value => value.references
  | _ => []

def substitute : Setting → Setting
  | .define name value => .define name (value.substitute params)
  | s => s

theorem draft_substitute (s : Setting) :
    (s.substitute params).draft KeyMap.empty = s.draft params := by
  cases s with
  | define name value => rw [substitute, draft, draft, Property.text?_substitute]
  | _ => rfl

theorem failure_draft (s : Setting) : (s.draft params).failure = params.fault? s.references := by
  cases s with
  | define name value =>
      rw [draft, Draft.failure_append, references, Property.fault?_references]
      cases value.text? params <;> rfl
  | _ => rfl

end Setting

namespace Operator

def references (o : Operator) : List String := o.properties.flatMap fun e => e.2.references

def substitute (o : Operator) : Operator :=
  { o with properties := o.properties.map fun e => (e.1, e.2.substitute params) }

theorem arguments_substitute (written : Nat) (l : List (String × Property)) :
    arguments KeyMap.empty written (l.map fun e => (e.1, e.2.substitute params)) =
      arguments params written l := by
  induction l generalizing written with
  | nil => rfl
  | cons e l ih =>
      rw [List.map_cons, arguments, arguments, Property.text?_substitute]
      simp only [ih]

theorem draft_substitute (o : Operator) :
    (o.substitute params).draft KeyMap.empty = o.draft params := by
  rw [substitute, draft, draft, arguments_substitute]

theorem failure_arguments (written : Nat) (l : List (String × Property)) :
    (arguments params written l).failure = params.fault? (l.flatMap fun e => e.2.references) := by
  induction l generalizing written with
  | nil => rfl
  | cons e l ih =>
      rw [List.flatMap_cons, Parameters.fault?_append, Property.fault?_references, arguments]
      cases e.2.text? params with
      | error fault => rfl
      | ok t => cases t <;> simp [ih]

theorem failure_draft (o : Operator) : (o.draft params).failure = params.fault? o.references := by
  rw [draft, Draft.failure_append, failure_arguments]
  rfl

end Operator

namespace Segment

def references : Segment → List String
  | .call o => o.references
  | .raw _ => []

def substitute : Segment → Segment
  | .call o => .call (o.substitute params)
  | .raw s => .raw s

theorem draft_substitute (s : Segment) :
    (s.substitute params).draft KeyMap.empty = s.draft params := by
  cases s with
  | call o => exact o.draft_substitute params
  | raw s => rfl

theorem failure_draft (s : Segment) : (s.draft params).failure = params.fault? s.references := by
  cases s with
  | call o => exact o.failure_draft params
  | raw s => rfl

end Segment

namespace Query

/-- The parameters that a query refers to, in the order in which they are written. -/
def references (q : Query) : List String :=
  q.settings.flatMap Setting.references ++ q.segments.flatMap Segment.references

/-- The query with every reference to a bound parameter replaced by its literal. -/
def substitute (q : Query) : Query where
  settings := q.settings.map (Setting.substitute params)
  segments := q.segments.map (Segment.substitute params)

theorem draft_substitute (q : Query) :
    (q.substitute params).draft KeyMap.empty = q.draft params := by
  have hsettings : (q.settings.map (Setting.substitute params)).map (Setting.draft KeyMap.empty) =
      q.settings.map (Setting.draft params) := by
    rw [List.map_map]
    exact List.map_congr_left fun s _ => s.draft_substitute params
  have hsegments : (q.segments.map (Segment.substitute params)).map (Segment.draft KeyMap.empty) =
      q.segments.map (Segment.draft params) := by
    rw [List.map_map]
    exact List.map_congr_left fun s _ => s.draft_substitute params
  simp only [draft, substitute, hsettings, hsegments, List.isEmpty_map]

theorem failure_draft (q : Query) : (q.draft params).failure = params.fault? q.references := by
  have hsettings := Draft.failure_joinWith params (Setting.failure_draft params) gap q.settings
  have hsegments := Draft.failure_joinWith params (Segment.failure_draft params) pipe q.segments
  rw [references, Parameters.fault?_append, ← hsettings, ← hsegments, draft]
  rcases hq : q.settings with _ | ⟨s, l⟩ <;> rcases hm : q.segments with _ | ⟨t, m⟩ <;>
    simp [Draft.joinWith]

/-- With all its parameters bound, a query is written as the query with the literals in their
places; otherwise the first reference without a binding is reported. References are looked for in
the settings and then in the operators, and in each operator in the order in which its properties
were first set, with the value that each was last set to. -/
theorem printWith_eq_print_substitute (q : Query) (params : Parameters) :
    (match q.references.find? params.isUnbound with
      | none => ∃ text, q.printWith params = .ok text ∧ (q.substitute params).print = .ok text
      | some name => q.printWith params = .error (.unboundParameter name)) ∧
    ∀ (name : String) (l : List (String × Property)),
      (Operator.ofProperties name l).properties.map Prod.fst = (l.map Prod.fst).eraseDups ∧
      ∀ k p, (k, p) ∈ (Operator.ofProperties name l).properties ↔
        Operator.lastSet? l k = some p := by
  refine ⟨?_, fun name l => ⟨Operator.map_fst_ofProperties name l,
    Operator.mem_properties_ofProperties name l⟩⟩
  have hfailure := q.failure_draft params
  rw [Parameters.fault?] at hfailure
  cases hfind : q.references.find? params.isUnbound with
  | none =>
      rw [hfind] at hfailure
      have hprint : q.printWith params = .ok (q.draft params).text := by
        rw [printWith, Draft.result, hfailure]
        rfl
      refine ⟨_, hprint, ?_⟩
      rw [print, printWith, draft_substitute]
      exact hprint
  | some name =>
      rw [hfind] at hfailure
      change (q.draft params).result = _
      rw [Draft.result, hfailure]
      rfl

end Query

end TimeSeries.Flux
