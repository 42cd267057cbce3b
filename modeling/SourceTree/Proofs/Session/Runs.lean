import SourceTree.Proofs.Session.Failing

/-!
# Runs of a session

A session is used for call after call; some of them may fail. What a call keeps, a run keeps. A run in
which no call fails takes its payloads in as if they were the slots of one node.
-/
namespace SourceTree.Session

/-- A call: a payload in its format. -/
structure Call where
  format : Format
  payload : List UInt8

def Call.read (c : Call) : Except Fault Outline := Outline.read c.format c.payload

/-- Makes calls, one after the other, whatever becomes of them. -/
def deserializeAll (s : Session) : List Call → List (Except Fault Tree) × Session
  | [] => ([], s)
  | c :: calls =>
    let (outcome, mid) := s.deserialize c.format c.payload
    let (outcomes, last) := mid.deserializeAll calls
    (outcome :: outcomes, last)

theorem deserializeAll_cons (s : Session) (c : Call) (calls : List Call) :
    s.deserializeAll (c :: calls) = ((s.deserialize c.format c.payload).1 ::
      ((s.deserialize c.format c.payload).2.deserializeAll calls).1,
      ((s.deserialize c.format c.payload).2.deserializeAll calls).2) := rfl

theorem deserializeAll_append (s : Session) (front back : List Call) :
    s.deserializeAll (front ++ back) = ((s.deserializeAll front).1 ++
      ((s.deserializeAll front).2.deserializeAll back).1,
      ((s.deserializeAll front).2.deserializeAll back).2) := by
  induction front generalizing s with
  | nil => rfl
  | cons c front ih => rw [List.cons_append, deserializeAll_cons, ih, deserializeAll_cons]; rfl

/-- What every call keeps, a run keeps. -/
theorem deserializeAll_keeps {Kept : Session → Prop}
    (hcall : ∀ s format payload, Kept s → Kept (s.deserialize format payload).2) (calls : List Call) :
    ∀ {s : Session}, Kept s → Kept (s.deserializeAll calls).2 := by
  induction calls with
  | nil => exact fun h => h
  | cons c calls ih =>
    intro s h
    rw [deserializeAll_cons]
    exact ih (hcall s c.format c.payload h)

/-- A tree comes from a call that is made after some of the others. -/
theorem exists_call_of_ok {calls : List Call} {s : Session} {t : Tree}
    (h : .ok t ∈ (s.deserializeAll calls).1) :
    ∃ front c back, calls = front ++ c :: back ∧
      ((s.deserializeAll front).2.deserialize c.format c.payload).1 = .ok t := by
  induction calls generalizing s with
  | nil => nomatch h
  | cons c calls ih =>
    rw [deserializeAll_cons] at h
    rcases List.mem_cons.mp h with hfirst | hrest
    · exact ⟨[], c, calls, rfl, hfirst.symm⟩
    · obtain ⟨front, c', back, rfl, hok⟩ := ih hrest
      exact ⟨c :: front, c', back, rfl, hok⟩

/-- A run in which no call fails takes in the roots of all its payloads. -/
theorem takeAll_of_deserializeAll {calls : List Call} {trees : List Tree} {s s' : Session}
    (h : s.deserializeAll calls = (trees.map .ok, s')) :
    ∃ roots : List Outline, calls.map Call.read = roots.map .ok ∧
      s.takeAll roots = (.ok trees, s') := by
  induction calls generalizing s trees with
  | nil =>
    obtain ⟨htrees, rfl⟩ := Prod.mk.inj h
    obtain rfl : trees = [] := List.map_eq_nil_iff.mp htrees.symm
    exact ⟨[], rfl, rfl⟩
  | cons c calls ih =>
    rw [deserializeAll_cons] at h
    obtain ⟨houtcomes, hlast⟩ := Prod.mk.inj h
    cases trees with
    | nil => nomatch houtcomes
    | cons t trees =>
      obtain ⟨hfirst, hrest⟩ := List.cons.inj houtcomes
      obtain ⟨roots, hread, htake⟩ := ih (Prod.ext hrest hlast)
      obtain ⟨root, hroot, htakeRoot⟩ := exists_take_of_deserialize (Prod.ext hfirst rfl)
      refine ⟨root :: roots, ?_, ?_⟩
      · rw [List.map_cons, List.map_cons, Call.read, hroot, hread]
      · rw [takeAll, htakeRoot]
        simp only [htake]

end SourceTree.Session
