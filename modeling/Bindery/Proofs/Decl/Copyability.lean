import Bindery.Proofs.Decl.Building
import Bindery.Proofs.Decl.Distances
import Bindery.Proofs.Decl.Overriding
import Bindery.Proofs.Decl.Qualifiers

/-!
# What makes a class noncopyable

A class is noncopyable because of itself or because of a base, up to the classes about which the
user has decided.  The search for such a base remembers what it has met, on whatever path, and takes
a class that comes again for one that may be copied.  Whenever it ends without a find, what it has
met is closed under the edges that it follows, so that the answer stands although most paths were
cut short.

## Main definitions

* `DeclGraph.Uncopyable` — why a class cannot be copied, without regard to its bases.
* `DeclGraph.RefusesCopy`, `DeclGraph.AsksBases` — a class settles the answer, or leaves it to its
  bases.
* `DeclGraph.Asks g seen classes answer seen'` — the search as a recursion without a bound.

## Main results

* `blocksCopy_iff` — the tests of a single class.
* `Asks.exists_path`, `Asks.closed` — what a find means, and what a search without one has met.
* `asks_noncopyableFrom` — the recursion ends with what the bounded search answers.
* `isNoncopyable_iff` — **a class is noncopyable if undecided classes lead from it to one that
  refuses copies.**
-/

namespace Bindery.DeclGraph

variable {g : DeclGraph} {b c d m : DeclId} {l seen seen' seen'' classes found rest : List DeclId}
  {answer : Bool}

/-! ### A single class -/

/-- Why a class cannot be copied, without regard to its bases. -/
inductive Uncopyable (g : DeclGraph) (c : DeclId) : Prop
  /-- The first copy constructor that the class declares is hidden. -/
  | copyConstructor {front back : List DeclId} {m : DeclId} {k : Callable} {isExplicit : Bool} :
    g.members c = front ++ m :: back → g.callable? m = some k →
    k.kind = .constructor true isExplicit →
    (∀ x ∈ front, ∀ k', g.callable? x = some k' → ∀ e, k'.kind ≠ .constructor true e) →
    ¬ g.isPublic m → Uncopyable g c
  | destructor {m : DeclId} {k : Callable} : m ∈ g.members c → g.callable? m = some k →
    k.kind = .destructor → ¬ g.isPublic m → Uncopyable g c
  | pureVirtual {f : DeclId} : f ∈ g.unimplementedPureVirtuals c → Uncopyable g c
  | constant {m : DeclId} {v : VariableDecl} {t : CppType} : m ∈ g.members c →
    g.varDecl? m = some v → v.isStatic = false → v.type = .const t → Uncopyable g c
  | reference {m : DeclId} {v : VariableDecl} {t : CppType} : m ∈ g.members c →
    g.varDecl? m = some v → v.isStatic = false → CppType.IsCv (.reference t) v.type → Uncopyable g c

theorem isCopyConstructor_iff {k : Callable} :
    k.isCopyConstructor ↔ ∃ isExplicit, k.kind = .constructor true isExplicit := by
  unfold Callable.isCopyConstructor
  split
  · next e h => exact ⟨fun _ => ⟨e, h⟩, fun _ => rfl⟩
  · next hnot => exact ⟨nofun, fun ⟨e, h⟩ => absurd h (hnot e)⟩

/-- The first copy constructor among the members of a class. -/
theorem copyConstructor?_eq_some_iff : g.copyConstructor? c = some m ↔
    ∃ front back k, g.members c = front ++ m :: back ∧ g.callable? m = some k ∧
      k.isCopyConstructor ∧
        ∀ x ∈ front, ∀ k', g.callable? x = some k' → ¬ k'.isCopyConstructor := by
  unfold copyConstructor? callables
  rw [List.find?_filterMap]
  simp only [Option.map_eq_some_iff, Option.bind_eq_some_iff, List.find?_eq_some_iff_append,
    Option.any_map]
  constructor
  · rintro ⟨_, ⟨x, ⟨hx, front, back, hsplit, hfront⟩, k, hk, rfl⟩, rfl⟩
    rw [hk] at hx
    refine ⟨front, back, k, hsplit, hk, hx, fun y hy k' hk' => ?_⟩
    simpa [hk'] using hfront y hy
  · rintro ⟨front, back, k, hsplit, hk, hcopy, hfront⟩
    refine ⟨(m, k), ⟨m, ⟨?_, front, back, hsplit, fun y hy => ?_⟩, k, hk, rfl⟩, rfl⟩
    · rw [hk]
      exact hcopy
    · cases hk' : g.callable? y with
      | none => rfl
      | some k' => simpa using hfront y hy k' hk'

theorem not_hasTrivialCopy_iff : g.hasTrivialCopy c = false ↔
    ∃ m, g.copyConstructor? c = some m ∧ ¬ g.isPublic m := by
  unfold hasTrivialCopy
  cases g.copyConstructor? c <;> simp

theorem not_hasPublicDestructor_iff : g.hasPublicDestructor c = false ↔
    ∃ m k, m ∈ g.members c ∧ g.callable? m = some k ∧ k.kind = .destructor ∧ ¬ g.isPublic m := by
  unfold hasPublicDestructor
  simp only [List.all_eq_false, List.mem_filter, beq_iff_eq, mem_callables, Prod.exists]
  constructor
  · rintro ⟨m, k, ⟨⟨hm, hk⟩, hkind⟩, hhidden⟩
    exact ⟨m, k, hm, hk, hkind, hhidden⟩
  · rintro ⟨m, k, hm, hk, hkind, hhidden⟩
    exact ⟨m, k, ⟨⟨hm, hk⟩, hkind⟩, hhidden⟩

theorem hasFixedMember_iff : g.hasFixedMember c ↔
    ∃ m v, m ∈ g.members c ∧ g.varDecl? m = some v ∧ v.isStatic = false ∧
      ((∃ t, v.type = .const t) ∨ ∃ t, CppType.IsCv (.reference t) v.type) := by
  unfold hasFixedMember
  rw [List.any_eq_true]
  refine exists_congr fun m => ?_
  cases hv : g.varDecl? m with
  | none => simp
  | some v => simp [CppType.isConst_iff, CppType.isReference_iff, CppType.Refers]

/-- **The tests of a single class.** -/
theorem blocksCopy_iff : g.blocksCopy c ↔ g.Uncopyable c := by
  unfold blocksCopy isAbstract
  simp only [Bool.or_eq_true, Bool.not_eq_true', not_hasTrivialCopy_iff,
    not_hasPublicDestructor_iff, hasFixedMember_iff, List.isEmpty_eq_false_iff_exists_mem]
  constructor
  · rintro (((⟨m, hm, hhidden⟩ | ⟨m, k, hm, hk, hkind, hhidden⟩) | ⟨f, hf⟩) |
      ⟨m, v, hm, hv, hstatic, ⟨t, ht⟩ | ⟨t, ht⟩⟩)
    · obtain ⟨front, back, k, hsplit, hk, hcopy, hfront⟩ := copyConstructor?_eq_some_iff.mp hm
      obtain ⟨e, he⟩ := isCopyConstructor_iff.mp hcopy
      refine .copyConstructor hsplit hk he (fun x hx k' hk' e' he' => ?_) hhidden
      exact hfront x hx k' hk' (isCopyConstructor_iff.mpr ⟨e', he'⟩)
    · exact .destructor hm hk hkind hhidden
    · exact .pureVirtual hf
    · exact .constant hm hv hstatic ht
    · exact .reference hm hv hstatic ht
  · intro h
    cases h with
    | copyConstructor hsplit hk he hfront hhidden =>
      refine .inl (.inl (.inl ⟨_, copyConstructor?_eq_some_iff.mpr ⟨_, _, _, hsplit, hk,
        isCopyConstructor_iff.mpr ⟨_, he⟩, fun x hx k' hk' hcopy => ?_⟩, hhidden⟩))
      obtain ⟨e', he'⟩ := isCopyConstructor_iff.mp hcopy
      exact hfront x hx k' hk' e' he'
    | destructor hm hk hkind hhidden => exact .inl (.inl (.inr ⟨_, _, hm, hk, hkind, hhidden⟩))
    | pureVirtual hf => exact .inl (.inr ⟨_, hf⟩)
    | constant hm hv hstatic ht => exact .inr ⟨_, _, hm, hv, hstatic, .inl ⟨_, ht⟩⟩
    | reference hm hv hstatic ht => exact .inr ⟨_, _, hm, hv, hstatic, .inr ⟨_, ht⟩⟩

/-! ### The search -/

/-- The class settles that it is noncopyable: the user says so, or says nothing and the class cannot
be copied. -/
inductive RefusesCopy (g : DeclGraph) (c : DeclId) : Prop
  | decided : (g.config c).noncopyable = some true → RefusesCopy g c
  | itself : (g.config c).noncopyable = none → g.isClass c → g.Uncopyable c → RefusesCopy g c

/-- The declaration settles that it is copyable: the user says so, or it is no class. -/
inductive AllowsCopy (g : DeclGraph) (c : DeclId) : Prop
  | decided : (g.config c).noncopyable = some false → AllowsCopy g c
  | noClass : (g.config c).noncopyable = none → ¬ g.isClass c → AllowsCopy g c

/-- The class leaves the answer to its bases. -/
structure AsksBases (g : DeclGraph) (c : DeclId) : Prop where
  undecided : (g.config c).noncopyable = none
  isClass : g.isClass c
  copyable : ¬ g.Uncopyable c

/-- A base edge from a class about which the user has not decided. -/
def UndecidedEdge (g : DeclGraph) (d b : DeclId) : Prop :=
  (g.config d).noncopyable = none ∧ b ∈ g.bases d

/-- Some classes are asked one after the other until one is noncopyable.  Each is asked once; one
that comes again is passed over. -/
inductive Asks (g : DeclGraph) : List DeclId → List DeclId → Bool → List DeclId → Prop
  | nil {seen : List DeclId} : Asks g seen [] false seen
  | again {c : DeclId} {seen rest seen' : List DeclId} {answer : Bool} : c ∈ seen →
    Asks g seen rest answer seen' → Asks g seen (c :: rest) answer seen'
  | refused {c : DeclId} {seen rest : List DeclId} : c ∉ seen → g.RefusesCopy c →
    Asks g seen (c :: rest) true (c :: seen)
  | allowed {c : DeclId} {seen rest seen' : List DeclId} {answer : Bool} : c ∉ seen →
    g.AllowsCopy c → Asks g (c :: seen) rest answer seen' → Asks g seen (c :: rest) answer seen'
  | found {c : DeclId} {seen rest seen' : List DeclId} : c ∉ seen → g.AsksBases c →
    Asks g (c :: seen) (g.bases c) true seen' → Asks g seen (c :: rest) true seen'
  | passed {c : DeclId} {seen rest seen' seen'' : List DeclId} {answer : Bool} : c ∉ seen →
    g.AsksBases c → Asks g (c :: seen) (g.bases c) false seen' → Asks g seen' rest answer seen'' →
    Asks g seen (c :: rest) answer seen''

theorem AllowsCopy.not_refuses (h : g.AllowsCopy c) : ¬ g.RefusesCopy c := by
  rintro (hdecided | ⟨hundecided, hclass, -⟩) <;> cases h <;> simp_all

theorem AllowsCopy.not_edge (h : g.AllowsCopy c) : ¬ g.UndecidedEdge c b := by
  rintro ⟨hundecided, hb⟩
  cases h with
  | decided hdecided =>
    rw [hundecided] at hdecided
    cases hdecided
  | noClass _ hclass =>
    rw [isClass, Option.isSome_iff_ne_none, not_not] at hclass
    rw [bases, hclass] at hb
    cases hb

theorem AsksBases.not_refuses (h : g.AsksBases c) : ¬ g.RefusesCopy c := by
  rintro (hdecided | ⟨-, -, huncopyable⟩)
  · rw [h.undecided] at hdecided
    cases hdecided
  · exact h.copyable huncopyable

/-- **A find is at the end of a path of undecided classes.**  By induction on the recursion. -/
theorem Asks.exists_path (h : g.Asks seen classes answer seen') : answer = true →
    ∃ c ∈ classes, ∃ d, Relation.ReflTransGen g.UndecidedEdge c d ∧ g.RefusesCopy d := by
  induction h with
  | nil => exact nofun
  | again _ _ ih | allowed _ _ _ ih | passed _ _ _ _ _ ih =>
    intro hanswer
    obtain ⟨c, hc, hpath⟩ := ih hanswer
    exact ⟨c, List.mem_cons_of_mem _ hc, hpath⟩
  | refused _ hrefuses => exact fun _ => ⟨_, List.mem_cons_self, _, .refl, hrefuses⟩
  | @found c _ _ _ _ hasks _ ih =>
    intro _
    obtain ⟨b, hb, d, hbd, hd⟩ := ih rfl
    exact ⟨c, List.mem_cons_self, d, .head ⟨hasks.undecided, hb⟩ hbd, hd⟩

/-- **A search without a find has met all classes that it was asked about and all those behind the
undecided ones**, none of which refuses copies.  By induction on the recursion. -/
theorem Asks.closed (h : g.Asks seen classes answer seen') : answer = false →
    seen ⊆ seen' ∧ classes ⊆ seen' ∧ ∀ d ∈ seen', d ∈ seen ∨
      ¬ g.RefusesCopy d ∧ ∀ b, g.UndecidedEdge d b → b ∈ seen' := by
  induction h with
  | nil => exact fun _ => ⟨List.Subset.refl _, List.nil_subset _, fun d hd => .inl hd⟩
  | again hc _ ih =>
    intro hanswer
    obtain ⟨hseen, hrest, hclosed⟩ := ih hanswer
    exact ⟨hseen, List.cons_subset.mpr ⟨hseen hc, hrest⟩, hclosed⟩
  | refused | found => exact nofun
  | allowed _ hallows _ ih =>
    intro hanswer
    obtain ⟨hseen, hrest, hclosed⟩ := ih hanswer
    obtain ⟨hc, hseen⟩ := List.cons_subset.mp hseen
    refine ⟨hseen, List.cons_subset.mpr ⟨hc, hrest⟩, fun d hd => ?_⟩
    rcases hclosed d hd with hd | hd
    · rcases List.mem_cons.mp hd with rfl | hd
      · exact .inr ⟨hallows.not_refuses, fun b hb => absurd hb hallows.not_edge⟩
      · exact .inl hd
    · exact .inr hd
  | passed _ hasks _ _ ih ih' =>
    intro hanswer
    obtain ⟨hseen, hbases, hclosed⟩ := ih rfl
    obtain ⟨hseen', hrest, hclosed'⟩ := ih' hanswer
    obtain ⟨hc, hseen⟩ := List.cons_subset.mp hseen
    refine ⟨List.Subset.trans hseen hseen', List.cons_subset.mpr ⟨hseen' hc, hrest⟩, fun d hd => ?_⟩
    rcases hclosed' d hd with hd | hd
    · rcases hclosed d hd with hd | ⟨hnot, hedges⟩
      · rcases List.mem_cons.mp hd with rfl | hd
        · -- the bases of the class itself have been asked
          exact .inr ⟨hasks.not_refuses, fun b hb => hseen' (hbases hb.2)⟩
        · exact .inl hd
      · exact .inr ⟨hnot, fun b hb => hseen' (hedges b hb)⟩
    · exact .inr hd

/-- **The answer about a single class.** -/
theorem Asks.answer_iff (h : g.Asks [] [c] answer seen) : answer = true ↔
    ∃ d, Relation.ReflTransGen g.UndecidedEdge c d ∧ g.RefusesCopy d := by
  constructor
  · intro hanswer
    obtain ⟨a, ha, hpath⟩ := h.exists_path hanswer
    exact List.mem_singleton.mp ha ▸ hpath
  · rintro ⟨d, hpath, hrefuses⟩
    by_contra hanswer
    obtain ⟨-, hmet, hclosed⟩ := h.closed (Bool.not_eq_true _ ▸ hanswer)
    have hsettled : ∀ d ∈ seen, ¬ g.RefusesCopy d ∧ ∀ b, g.UndecidedEdge d b → b ∈ seen :=
      fun d hd => (hclosed d hd).resolve_left List.not_mem_nil
    have hmem : ∀ d, Relation.ReflTransGen g.UndecidedEdge c d → d ∈ seen := by
      intro d hd
      induction hd with
      | refl => exact hmet List.mem_cons_self
      | tail _ hedge ih => exact (hsettled _ ih).2 _ hedge
    exact (hsettled d (hmem d hpath)).1 hrefuses

/-- A class that is asked first may settle the answer. -/
theorem Asks.cons_true (h : g.Asks seen [c] true seen') : g.Asks seen (c :: rest) true seen' := by
  cases h with
  | again hc h => cases h
  | refused hnew hrefuses => exact .refused hnew hrefuses
  | allowed hnew hallows h => cases h
  | found hnew hasks h => exact .found hnew hasks h
  | passed hnew hasks h h' => cases h'

/-- If it does not, the others are asked. -/
theorem Asks.cons_false (h : g.Asks seen [c] false seen')
    (hrest : g.Asks seen' rest answer seen'') : g.Asks seen (c :: rest) answer seen'' := by
  cases h with
  | again hc h =>
    cases h
    exact .again hc hrest
  | allowed hnew hallows h =>
    cases h
    exact .allowed hnew hallows hrest
  | passed hnew hasks h h' =>
    cases h'
    exact .passed hnew hasks h hrest

/-! ### The bound on the search -/

/-- What a search has met, each once, of all that it can meet. -/
structure Met (all seen : List DeclId) : Prop where
  nodup : seen.Nodup
  subset : seen ⊆ all

theorem Met.length_le {all : List DeclId} (h : Met all seen) : seen.length ≤ all.length :=
  (h.nodup.subperm h.subset).length_le

theorem Met.cons {all : List DeclId} (h : Met all seen) (hc : c ∈ all) (hnew : c ∉ seen) :
    Met all (c :: seen) :=
  ⟨List.nodup_cons.mpr ⟨hnew, h.nodup⟩, List.cons_subset.mpr ⟨hc, h.subset⟩⟩

section bound

variable {all : List DeclId} (hbases : ∀ d, g.bases d ⊆ all)

include hbases

/-- A search meets only what it can meet, and forgets nothing. -/
theorem Asks.met (h : g.Asks seen classes answer seen') : classes ⊆ all → Met all seen →
    Met all seen' ∧ seen.length ≤ seen'.length := by
  induction h with
  | nil => exact fun _ hmet => ⟨hmet, le_rfl⟩
  | again _ _ ih => exact fun hall hmet => ih (List.cons_subset.mp hall).2 hmet
  | refused hnew _ =>
    exact fun hall hmet => ⟨hmet.cons (List.cons_subset.mp hall).1 hnew, Nat.le_succ _⟩
  | allowed hnew _ _ ih =>
    intro hall hmet
    obtain ⟨hc, hrest⟩ := List.cons_subset.mp hall
    obtain ⟨hmet', hlength⟩ := ih hrest (hmet.cons hc hnew)
    exact ⟨hmet', (Nat.le_succ _).trans hlength⟩
  | found hnew _ _ ih =>
    intro hall hmet
    obtain ⟨hmet', hlength⟩ := ih (hbases _) (hmet.cons (List.cons_subset.mp hall).1 hnew)
    exact ⟨hmet', (Nat.le_succ _).trans hlength⟩
  | passed hnew _ _ _ ih ih' =>
    intro hall hmet
    obtain ⟨hc, hrest⟩ := List.cons_subset.mp hall
    obtain ⟨hmet', hlength⟩ := ih (hbases _) (hmet.cons hc hnew)
    obtain ⟨hmet'', hlength'⟩ := ih' hrest hmet'
    exact ⟨hmet'', ((Nat.le_succ _).trans hlength).trans hlength'⟩

/-- Classes that are asked one after the other, if `next` asks a single one. -/
private theorem asks_foldlM {next : List DeclId → DeclId → Except MissingDecl (Bool × List DeclId)}
    {fuel : Nat} (hnext : ∀ {seen c}, Met all seen → c ∈ all → all.length < fuel + seen.length →
      ∃ answer seen', next seen c = .ok (answer, seen') ∧ g.Asks seen [c] answer seen') :
    ∀ {classes seen : List DeclId}, classes ⊆ all → Met all seen →
      all.length < fuel + seen.length → ∃ answer seen',
        classes.foldlM (fun acc b => if acc.1 then pure acc else next acc.2 b) (false, seen) =
          .ok (answer, seen') ∧ g.Asks seen classes answer seen'
  | [], seen, _, _, _ => ⟨false, seen, rfl, .nil⟩
  | c :: rest, seen, hall, hmet, hfuel => by
    obtain ⟨hc, hrest⟩ := List.cons_subset.mp hall
    obtain ⟨answer, seen', hrun, hasks⟩ := hnext hmet hc hfuel
    have hfirst : (if (false, seen).1 then pure (false, seen) else next (false, seen).2 c) =
        .ok (answer, seen') := hrun
    obtain ⟨hmet', hlonger⟩ := hasks.met hbases (List.cons_subset.mpr ⟨hc, List.nil_subset _⟩) hmet
    cases answer with
    | true =>
      refine ⟨true, seen', ?_, hasks.cons_true⟩
      have hstay : ∀ l : List DeclId, l.foldlM (fun (acc : Bool × List DeclId) b =>
          if acc.1 then pure acc else next acc.2 b) (true, seen') = .ok (true, seen') := by
        intro l
        induction l with
        | nil => rfl
        | cons b l ih => exact Except.bind_eq_ok.mpr ⟨_, rfl, ih⟩
      exact Except.bind_eq_ok.mpr ⟨_, hfirst, hstay rest⟩
    | false =>
      obtain ⟨answer, seen'', hrun', hasks'⟩ :=
        asks_foldlM hnext hrest hmet' (by omega)
      exact ⟨answer, seen'', Except.bind_eq_ok.mpr ⟨_, hfirst, hrun'⟩, hasks.cons_false hasks'⟩

/-- **The recursion ends with what the bounded search answers**, if there is room for all that it
can meet. -/
theorem asks_noncopyableFrom (hall : ∀ c ∈ all, c < g.size) : ∀ (fuel : Nat) {seen : List DeclId}
    {c : DeclId}, Met all seen → c ∈ all → all.length < fuel + seen.length →
      ∃ answer seen', g.noncopyableFrom fuel seen c = .ok (answer, seen') ∧
        g.Asks seen [c] answer seen'
  | 0, seen, c, hmet, _, hfuel => by
    have := hmet.length_le
    omega
  | fuel + 1, seen, c, hmet, hc, hfuel => by
    rw [noncopyableFrom]
    by_cases hseen : c ∈ seen
    · exact ⟨false, seen, if_pos hseen, .again hseen .nil⟩
    obtain ⟨d, hd⟩ := exists_decl (hall c hc)
    have hget := decl_eq_ok.mp hd
    have hconfig : g.config c = d.config := by rw [config, hget]
    have hkind : g.kind? c = some d.kind := by rw [kind?, hget]; rfl
    have hmet' : Met all (c :: seen) := hmet.cons hc hseen
    rw [if_neg hseen]
    cases hdecided : d.config.noncopyable with
    | some decided =>
      refine ⟨decided, c :: seen, Except.bind_eq_ok.mpr ⟨d, hd, ?_⟩, ?_⟩
      · dsimp only
        rw [hdecided]
        rfl
      · rw [← hconfig] at hdecided
        cases decided with
        | true => exact .refused hseen (.decided hdecided)
        | false => exact .allowed hseen (.decided hdecided) .nil
    | none =>
      have hundecided : (g.config c).noncopyable = none := hconfig ▸ hdecided
      cases hcls : d.kind with
      | cls k =>
        have hclass : g.isClass c := isClass_iff.mpr ⟨k, hkind.trans (congrArg some hcls)⟩
        by_cases hblocks : g.blocksCopy c
        · refine ⟨true, c :: seen, Except.bind_eq_ok.mpr ⟨d, hd, ?_⟩,
            .refused hseen (.itself hundecided hclass (blocksCopy_iff.mp hblocks))⟩
          dsimp only
          rw [hdecided, hcls]
          exact if_pos hblocks
        · have hasks : g.AsksBases c := ⟨hundecided, hclass, mt blocksCopy_iff.mpr hblocks⟩
          obtain ⟨answer, seen', hrun, hbelow⟩ := asks_foldlM hbases
            (asks_noncopyableFrom hall fuel) (hbases c) hmet' (by rw [List.length_cons]; omega)
          refine ⟨answer, seen', Except.bind_eq_ok.mpr ⟨d, hd, ?_⟩, ?_⟩
          · dsimp only
            rw [hdecided, hcls]
            exact (if_neg hblocks).trans hrun
          · cases answer with
            | true => exact .found hseen hasks hbelow
            | false => exact .passed hseen hasks hbelow .nil
      | _ =>
        have hclass : ¬ g.isClass c :=
          not_isClass_of_kind? (hkind.trans (congrArg some hcls)) (by rintro k ⟨⟩)
        refine ⟨false, c :: seen, Except.bind_eq_ok.mpr ⟨d, hd, ?_⟩,
          .allowed hseen (.noClass hundecided hclass) .nil⟩
        dsimp only
        rw [hdecided, hcls]
        rfl

end bound

/-- **A class is noncopyable exactly if base edges from undecided classes lead from it to one that
refuses copies**, whether because the user says so or because of what it declares.  The search ends
with the answer of the unbounded recursion, whatever circles the base edges form. -/
theorem isNoncopyable_iff (h : g.validate = .ok ()) (hc : c < g.size) :
    ∃ answer seen, g.isNoncopyable c = .ok answer ∧ g.Asks [] [c] answer seen ∧
      (answer = true ↔
        ∃ d, Relation.ReflTransGen g.UndecidedEdge c d ∧ g.RefusesCopy d) := by
  have haccepted := validate_eq_ok_iff.mp h
  have hbases : ∀ d, g.bases d ⊆ c :: g.ids.flatMap g.bases :=
    fun d b hb => List.mem_cons_of_mem c (mem_edges_of_mem_bases hb)
  have hall : ∀ b ∈ c :: g.ids.flatMap g.bases, b < g.size := by
    refine List.forall_mem_cons.mpr ⟨hc, fun b hb => ?_⟩
    obtain ⟨d, hd, hb⟩ := List.mem_flatMap.mp hb
    exact checkBases_eq_ok.mp (haccepted.base d (List.mem_range.mp hd)) b hb
  obtain ⟨answer, seen, hrun, hasks⟩ := asks_noncopyableFrom hbases hall (g.baseEdges + 2)
    ⟨List.nodup_nil, List.nil_subset _⟩ List.mem_cons_self
    (by rw [List.length_cons, ← baseEdges]; exact Nat.lt_succ_self _)
  exact ⟨answer, seen, Except.bind_eq_ok.mpr ⟨_, hrun, rfl⟩, hasks, hasks.answer_iff⟩

/-- A class is noncopyable for the reference that a base of a base holds, but not through the base
about which the user has decided; that one is copyable, although it is on the same circle. -/
theorem isNoncopyable_iff_roundDiamond : roundDiamond.validate = .ok () ∧
    roundDiamond.isNoncopyable 1 = .ok true ∧ roundDiamond.isNoncopyable 2 = .ok false ∧
    (∃ d, Relation.ReflTransGen roundDiamond.UndecidedEdge 1 d ∧ roundDiamond.RefusesCopy d) ∧
    ¬ ∃ d, Relation.ReflTransGen roundDiamond.UndecidedEdge 2 d ∧ roundDiamond.RefusesCopy d := by
  have hvalid : roundDiamond.validate = .ok () := by decide +kernel
  have hfirst : roundDiamond.isNoncopyable 1 = .ok true := by decide +kernel
  have hsecond : roundDiamond.isNoncopyable 2 = .ok false := by decide +kernel
  obtain ⟨answer, _, hanswer, -, hiff⟩ := isNoncopyable_iff hvalid (c := 1) (by decide)
  obtain ⟨answer', _, hanswer', -, hiff'⟩ := isNoncopyable_iff hvalid (c := 2) (by decide)
  obtain rfl : answer = true := Except.ok.inj (hanswer.symm.trans hfirst)
  obtain rfl : answer' = false := Except.ok.inj (hanswer'.symm.trans hsecond)
  exact ⟨hvalid, hfirst, hsecond, hiff.mp rfl, fun hpath => Bool.false_ne_true (hiff'.mpr hpath)⟩

end Bindery.DeclGraph
