import GraphBlock.Report.Basic
import Mathlib.Data.List.Basic

/-!
# Contexts around what went wrong

A failure that the program knows is the same one whether it comes up as it is or converted
(`Cause.Is`), and contexts around it do not change what is reported.  Any other cause is reported
by its texts: the outermost context, and below it the other contexts from the outside in and the
cause, numbered from one (`Trouble.listing`).  Both are `Report.contexts_hide_no_failure`.
-/

namespace GraphBlock

theorem Text.Decimal.ofNat_eq_toDigits (n : Nat) : ofNat n = Nat.toDigits 10 n := by
  induction n using Nat.strongRecOn with
  | ind n ih =>
    rw [ofNat]
    split
    · rename_i h
      have hchar : digit n = n.digitChar := by
        rw [← Char.toNat_inj, toNat_digit h, Nat.toNat_digitChar_of_lt_ten h]
      rw [Nat.toDigits_of_lt_base h, hchar]
    · rename_i h
      have hmod : n % 10 < 10 := Nat.mod_lt _ (by omega)
      have hdigit : [digit (n % 10)] = Nat.toDigits 10 (n % 10) := by
        rw [← ih _ (by omega), ofNat, if_pos hmod]
      rw [ih _ (by omega), hdigit, Nat.toDigits_append_toDigits (by omega) (by omega) hmod,
        Nat.div_add_mod]

namespace Cause

/-- The cause is this failure, as it came up or converted. -/
inductive Is : Cause → Failure → Prop
  | converted (f : Failure) : Is (.failure f) f
  | parse (e : ParseError) : Is (.parse e) (.parse e)
  | render (e : RenderError) : Is (.render e) (.render e)
  | cache (e : CacheError) : Is (.cache e) (.cache e)

theorem failure?_eq_some_iff {c : Cause} {f : Failure} : c.failure? = some f ↔ c.Is f := by
  constructor
  · intro h
    cases c <;> simp only [failure?, Option.some.injEq, reduceCtorEq] at h <;> subst h <;>
      constructor
  · rintro (_ | _ | _ | _) <;> rfl

end Cause

namespace Trouble

/-- Contexts are put around, one after the other, so that the last is the outermost. -/
def withinAll (t : Trouble) (contexts : List String) : Trouble :=
  contexts.foldl within t

theorem withinAll_eq : ∀ (contexts : List String) (t : Trouble),
    t.withinAll contexts = ⟨t.cause, contexts.reverse ++ t.contexts⟩
  | [], _ => rfl
  | c :: cs, t => by
    rw [withinAll, List.foldl_cons, ← withinAll, withinAll_eq cs]
    simp [within]

/-- The first text, and below it the others, numbered from one. -/
def listing : List String → String
  | [] => ""
  | [t] => t
  | t :: ts => t ++ "\n\nCaused by:" ++ String.join
      ((ts.zipIdx 1).map fun line => "\n  " ++ toString line.2 ++ ": " ++ line.1)

end Trouble

namespace Report

open Trouble

theorem numbered_eq : ∀ (n : Nat) (ts : List String), numbered n ts = String.join
    ((ts.zipIdx n).map fun line => "\n  " ++ toString line.2 ++ ": " ++ line.1)
  | _, [] => rfl
  | n, t :: ts => by
    have hn : String.ofList (Text.Decimal.ofNat n) = toString n := by
      rw [Text.Decimal.ofNat_eq_toDigits]
      rfl
    rw [numbered, numbered_eq (n + 1) ts, hn, List.zipIdx_cons, List.map_cons, String.join_cons]

theorem withCauses_eq_listing (ts : List String) : withCauses ts = listing ts := by
  rcases ts with _ | ⟨t, _ | ⟨t', ts⟩⟩
  · rfl
  · rfl
  · have hcauses : withCauses (t :: t' :: ts)
        = t ++ "\n\nCaused by:" ++ numbered 1 (t' :: ts) := rfl
    rw [hcauses, numbered_eq]
    rfl

theorem failure_ofFailure (f : Failure) : (ofFailure f).failure = f := by
  rcases f with e | e | e | _ | _ | _ | _
  · rfl
  · cases e <;> rfl
  · cases e <;> rfl
  all_goals rfl

theorem ofTrouble_of_is {t : Trouble} {f : Failure} (h : t.cause.Is f) :
    ofTrouble t = ofFailure f := by
  rw [ofTrouble, Cause.failure?_eq_some_iff.2 h]

/-- The report on a failure that the program knows is that on the bare failure, with its kind and
texts, however it came up and whatever contexts stand around it.  The report on an access to a file
or on a message lists the contexts from the outside in and then the cause; the advice goes by the
kind of the access and by nothing else. -/
theorem contexts_hide_no_failure (contexts : List String) :
    (∀ (f : Failure) (c bare : Cause), c.Is f → bare.Is f →
      ofTrouble ((Trouble.ofCause c).withinAll contexts) = ofTrouble (.ofCause bare)
      ∧ (ofTrouble (.ofCause bare)).failure = f)
    ∧ (∀ e : IoError, ofTrouble ((Trouble.ofCause (.io e)).withinAll contexts)
      = ⟨.other (listing (contexts.reverse ++ [e.message])), ioSuggestion e.kind, none⟩)
    ∧ ∀ text : String, ofTrouble ((Trouble.ofCause (.message text)).withinAll contexts)
      = ⟨.other (listing (contexts.reverse ++ [text])), none, none⟩ := by
  have hchain : ∀ c : Cause, ((Trouble.ofCause c).withinAll contexts).chain
      = contexts.reverse ++ c.chain := fun c => by
    rw [withinAll_eq]
    simp [chain, ofCause]
  refine ⟨fun f c bare hc hbare => ?_, fun e => ?_, fun text => ?_⟩
  · have hcause : ((Trouble.ofCause c).withinAll contexts).cause = c := by
      rw [withinAll_eq]
      rfl
    have hbare' : ofTrouble (.ofCause bare) = ofFailure f := ofTrouble_of_is hbare
    rw [ofTrouble_of_is (hcause.symm ▸ hc), hbare']
    exact ⟨rfl, failure_ofFailure f⟩
  · have h := hchain (.io e)
    rw [withinAll_eq] at h ⊢
    rw [← withCauses_eq_listing]
    exact congrArg (fun ts => (⟨.other (withCauses ts), ioSuggestion e.kind, none⟩ : Report)) h
  · have h := hchain (.message text)
    rw [withinAll_eq] at h ⊢
    rw [← withCauses_eq_listing]
    exact congrArg (fun ts => (⟨.other (withCauses ts), none, none⟩ : Report)) h

/-- A parse error that is converted behind two contexts, and a missing file behind two. -/
theorem contexts_hide_no_failure_two :
    (Cause.failure (.parse (.emptyExpression "|RED"))).Is (.parse (.emptyExpression "|RED"))
      ∧ (Cause.parse (.emptyExpression "|RED")).Is (.parse (.emptyExpression "|RED"))
      ∧ ofTrouble ((Trouble.ofCause (.failure (.parse (.emptyExpression "|RED")))).withinAll
          ["in g.txt", "checking"]) = ofTrouble (.ofCause (.parse (.emptyExpression "|RED")))
      ∧ (ofTrouble ((Trouble.ofCause (.io .noSuchEntry)).withinAll
          ["in g.txt", "checking"])).failure.message = "checking\n\nCaused by:\n  1: in g.txt"
            ++ "\n  2: No such file or directory (os error 2)" := by
  obtain ⟨hknown, hio, -⟩ := contexts_hide_no_failure ["in g.txt", "checking"]
  refine ⟨.converted _, .parse _, (hknown _ _ _ (.converted _) (.parse _)).1, ?_⟩
  rw [hio]
  decide

end Report

end GraphBlock
