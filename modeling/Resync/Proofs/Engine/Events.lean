import Resync.Proofs.Engine.Contract

namespace Resync

/-- The events that parsers leave behind. -/
def Event.IsParsing : Event → Prop
  | .entered _ _ | .left _ _ | .noted _ => True
  | _ => False

namespace Registry

private def traffic (other : Event → Prop) : Contract where
  enter _ _ _ := True
  leave _ _ _ := True
  event e := e.IsParsing ∨ other e
  fault _ := True

variable {other : Event → Prop}

/-- Whatever a script does, its children leave only events of parsing behind. -/
private theorem meets_traffic (depth : Nat) (entry : Entry) (script : Script Result) :
    script.Meets ((traffic other).terms depth entry) fun _ => True := by
  have hask (index : Nat) (s : State) : ((traffic other).terms depth entry).ask index s :=
    Contract.terms_ask (fun _ _ => trivial) fun _ => trivial
  exact Script.meets_of_lenient hask (fun _ => .inl trivial) (fun _ => trivial) script

private theorem traffic_keptBy (other : Event → Prop) (reg : Registry) :
    (traffic other).KeptBy reg where
  exhausted _ := trivial
  missing _ _ := trivial
  entered _ := .inl trivial
  left _ := .inl trivial
  leaf _ _ _ := trivial
  branch _ _ _ := meets_traffic _ _ _

/-- Parsers enter and leave, and make remarks. Whatever else happens in a run is done by the
    recovery. -/
theorem isParsing_of_mem_parse {reg : Registry} {depth id : Nat} {s : State} {e : Event}
    (he : e ∈ (reg.parse depth id s).events) : e.IsParsing := by
  have hparse := (traffic_keptBy (fun _ => False) reg).ensures_parse depth id s trivial
  exact (hparse.event e he).resolve_right fun hother => hother

/-- A branch that is resumed says so, and else leaves only events of parsing behind. -/
theorem isParsing_of_mem_resume {reg : Registry} {depth id : Nat} {r : Resumption} {e : Event}
    (he : e ∈ (reg.resume depth id r).events) : e.IsParsing ∨ ∃ label, e = .resumed id label r := by
  have hresume : (reg.resume depth id r).Ensures
      (fun e => e.IsParsing ∨ ∃ label, e = .resumed id label r) (fun _ => True) fun _ => True :=
    (traffic_keptBy (fun e => ∃ label, e = .resumed id label r) reg).ensures_resume
      (fun _ => trivial) (fun _ _ => .inr ⟨_, rfl⟩) (fun _ _ _ _ => trivial)
      (fun _ _ _ _ => meets_traffic _ _ _) fun _ _ => .inl trivial
  exact hresume.event e he

end Registry

end Resync
