import SqlAnalysis.Diagnostic.Sink
import SqlAnalysis.Proofs.Pointwise

/-!
# What a sink never loses

A diagnostic that meets another one may be dropped, or may take its place, but an
error only gives way to an error. Whether there is any error at all is therefore
the same before and after suppression, whatever the window and the order. Where two runs
complain about the same things, suppression, which looks at places and severities only,
leaves complaints about the same things.
-/
namespace SqlAnalysis

/-- The diagnostics are about the same. Their messages and fixes may differ. -/
structure Diagnostic.Like (d d' : Diagnostic) : Prop where
  kind : d.kind = d'.kind
  severity : d.severity = d'.severity
  range : d.range = d'.range

instance Diagnostic.Like.refl : Std.Refl Diagnostic.Like :=
  ⟨fun _ => ⟨rfl, rfl, rfl⟩⟩

theorem Diagnostic.Like.isError_eq {d d' : Diagnostic} (h : d.Like d') :
    d.isError = d'.isError := by
  rw [isError, isError, h.severity]

namespace Sink

/-- Either the newcomer or what it meets is kept, whichever is an error. -/
theorem any_isError_settle (window : Nat) (d : Diagnostic) (items : List Diagnostic) :
    ∀ kept settled, settle window d items = some (kept, settled) →
      settled.any Diagnostic.isError = (items.any Diagnostic.isError || d.isError) := by
  induction items with
  | nil =>
    intro kept settled h
    simp [settle] at h
  | cons item items ih =>
    intro kept settled h
    unfold settle at h
    by_cases hclash : clashes window item d
    · rw [if_pos hclash] at h
      by_cases houtranks : d.severity.outranks item.severity
      · rw [if_pos houtranks] at h
        obtain ⟨rfl, rfl⟩ : true = kept ∧ d :: items = settled := by simpa using h
        have herror : d.isError = true := by
          simp only [Severity.outranks, Bool.and_eq_true] at houtranks
          exact houtranks.1
        simp [herror]
      · rw [if_neg houtranks] at h
        obtain ⟨rfl, rfl⟩ : false = kept ∧ item :: items = settled := by simpa using h
        have hitem : d.isError = true → item.isError = true := by
          intro herror
          cases hseverity : item.severity with
          | error => simp [Diagnostic.isError, hseverity]
          | warning => simp_all [Diagnostic.isError, Severity.outranks]
        cases herror : d.isError with
        | false => simp
        | true => simp [hitem herror]
    · rw [if_neg hclash] at h
      cases hrest : settle window d items with
      | none => simp [hrest] at h
      | some result =>
        obtain ⟨kept', rest⟩ := result
        obtain ⟨rfl, rfl⟩ : kept' = kept ∧ item :: rest = settled := by simpa [hrest] using h
        rw [List.any_cons, List.any_cons, ih _ _ hrest, Bool.or_assoc]

theorem hasErrors_push (sink : Sink) (d : Diagnostic) :
    (sink.push d).hasErrors = (sink.hasErrors || d.isError) := by
  unfold push offer hasErrors
  cases hsettle : settle sink.window d sink.items with
  | none => simp
  | some result =>
    obtain ⟨kept, items⟩ := result
    exact any_isError_settle _ _ _ _ _ hsettle

theorem hasErrors_extend (ds : List Diagnostic) :
    ∀ sink : Sink, (sink.extend ds).hasErrors = (sink.hasErrors || ds.any Diagnostic.isError) := by
  induction ds with
  | nil => simp [extend]
  | cons d ds ih =>
    intro sink
    have hrest := ih (sink.push d)
    rw [hasErrors_push, Bool.or_assoc] at hrest
    rw [List.any_cons, ← hrest]
    rfl

/-- No window hides that something is wrong. -/
theorem hasErrors_ofList (window : Nat) (ds : List Diagnostic) :
    (ofList window ds).hasErrors = ds.any Diagnostic.isError :=
  hasErrors_extend ds (empty window)

/-- A window of zero keeps everything. -/
theorem items_extend_zero (ds : List Diagnostic) :
    ∀ sink : Sink, sink.window = 0 → (sink.extend ds).items = sink.items ++ ds := by
  induction ds with
  | nil => simp [extend]
  | cons d ds ih =>
    intro sink hwindow
    have hpush : sink.push d = { sink with
        items := sink.items ++ [d], recorded := sink.recorded + 1 } := by
      simp [push, offer, hwindow, settle_window_zero]
    have hrest := ih (sink.push d) (by rw [hpush]; exact hwindow)
    rw [hpush] at hrest
    simpa [extend, hpush] using hrest

theorem items_ofList_zero (ds : List Diagnostic) : (ofList 0 ds).items = ds :=
  items_extend_zero ds (empty 0) rfl

/-! ### Diagnostics about the same -/

variable {items items' : List Diagnostic} {d d' : Diagnostic}

/-- Whether two ways to settle a diagnostic come to the same. -/
inductive SettledLike : Option (Bool × List Diagnostic) → Option (Bool × List Diagnostic) → Prop
  | none : SettledLike none none
  | some {kept : Bool} {items items' : List Diagnostic}
      (h : List.Forall₂ Diagnostic.Like items items') :
    SettledLike (some (kept, items)) (some (kept, items'))

theorem settle_like (window : Nat) (hd : d.Like d')
    (h : List.Forall₂ Diagnostic.Like items items') :
    SettledLike (settle window d items) (settle window d' items') := by
  induction h with
  | nil => exact .none
  | @cons item item' rest rest' hitem hrest ih =>
    unfold settle
    rw [clashes, clashes, hitem.range, hd.range, hitem.severity, hd.severity]
    split
    · split
      · exact .some (.cons hd hrest)
      · exact .some (.cons hitem hrest)
    · generalize settle window d rest = settled at ih
      generalize settle window d' rest' = settled' at ih
      cases ih with
      | none => exact .none
      | some hrest => exact .some (.cons hitem hrest)

/-- The sinks keep diagnostics about the same. -/
structure Like (sink sink' : Sink) : Prop where
  window : sink.window = sink'.window
  items : List.Forall₂ Diagnostic.Like sink.items sink'.items

theorem Like.push {sink sink' : Sink} (h : sink.Like sink') (hd : d.Like d') :
    (sink.push d).Like (sink'.push d') := by
  have hsettled := settle_like sink.window hd h.items
  unfold Sink.push offer
  rw [← h.window]
  generalize settle sink.window d sink.items = settled at hsettled
  generalize settle sink.window d' sink'.items = settled' at hsettled
  cases hsettled with
  | none => exact ⟨rfl, List.rel_append h.items (.cons hd .nil)⟩
  | some hitems => exact ⟨rfl, hitems⟩

theorem ofList_like (window : Nat) {ds ds' : List Diagnostic}
    (h : List.Forall₂ Diagnostic.Like ds ds') : (ofList window ds).Like (ofList window ds') :=
  List.rel_foldl (fun _ _ hsink _ _ hd => hsink.push hd) ⟨rfl, .nil⟩ h

end Sink
end SqlAnalysis
