import EvictingDeque.Proofs.Interpreter.Course

set_option autoImplicit false

/-!
# Safety of steps

The elements of a step are sound once their names stand for shared deques, so what a step stores is sound. From this
every step at every depth takes proper sessions to proper ones.
-/
namespace EvictingDeque

namespace Value

variable {ρ σ : Type} (f : ρ → Option σ)

mutual
/-- A reference in a replaced value replaces one of the value. -/
theorem exists_of_replace? (value : Value ρ) {replaced : Value σ} (h : value.replace? f = some replaced) :
    ∀ reference ∈ replaced.references, ∃ source, f source = some reference := by
  match value, h with
  | .int _, h => cases h; simp [references]
  | .text _, h => cases h; simp [references]
  | .real _, h => cases h; simp [references]
  | .keyed _ _, h => cases h; simp [references]
  | .nested ⟨items, bound⟩, h =>
    obtain ⟨found, hf, hr⟩ := Option.map_eq_some_iff.1 h
    subst hr
    intro reference hm
    obtain ⟨kept, hkept, hm⟩ := mem_referencesOfList.1 hm
    exact exists_of_replaceAll? items hf reference (mem_referencesOfList.2 ⟨kept, List.mem_of_mem_drop hkept, hm⟩)
  | .link source, h =>
    obtain ⟨found, hf, hr⟩ := Option.map_eq_some_iff.1 h
    subst hr
    intro reference hm
    have he : reference = found := by simpa [references] using hm
    exact ⟨source, he ▸ hf⟩
termination_by structural value

theorem exists_of_replaceAll? (values : List (Value ρ)) {replaced : List (Value σ)}
    (h : replaceAll? f values = some replaced) :
    ∀ reference ∈ referencesOfList replaced, ∃ source, f source = some reference := by
  match values, h with
  | [], h => cases h; simp [referencesOfList]
  | value :: values, h =>
    obtain ⟨first, hfirst, h⟩ := Option.bind_eq_some_iff.1 h
    obtain ⟨rest, hrest, h⟩ := Option.bind_eq_some_iff.1 h
    cases h
    intro reference hm
    rw [referencesOfList, List.mem_append] at hm
    rcases hm with hm | hm
    · exact exists_of_replace? value hfirst reference hm
    · exact exists_of_replaceAll? values hrest reference hm
termination_by structural values
end

end Value

open Action

theorem Action.known_resolveLink {s : Session} (hs : s.Proper) {source : Link String} {link : Link Handle}
    (h : resolveLink s source = some link) : link.Known s.nextCell := by
  cases source with
  | weak name =>
    obtain ⟨id, hid, rfl⟩ := Option.map_eq_some_iff.1 h
    exact hs.shared name id hid
  | own name =>
    obtain ⟨id, hid, rfl⟩ := Option.map_eq_some_iff.1 h
    exact hs.shared name id hid
  | hook id =>
    cases h
    trivial

namespace Action

variable {C : Session.Course} {limit : Nat}

theorem sound_resolve (literal : Literal) : (resolve literal).Sound C limit fun higher value => value.Sound higher := by
  refine sound_required fun s value hs hv => ⟨fun link hl => ?_, Value.fits_of_replace? _ literal hv⟩
  obtain ⟨_, hsource⟩ := Value.exists_of_replace? _ literal hv link hl
  exact known_resolveLink hs hsource

theorem sound_resolveAll (literals : List Literal) :
    (literals.mapM resolve).Sound C limit fun higher values => ∀ value ∈ values, value.Sound higher :=
  sound_mapM (fun hle hv => hv.mono hle) (fun literal _ _ => sound_resolve literal) literals

/-! What an operation offers -/

variable {β γ : Type} {build : β → γ} {offered : γ → List Element}

theorem sound_offer {a : Action β} (ha : a.Sound C limit fun _ _ => True) (ho : ∀ b, offered (build b) = []) :
    (do return build (← a)).Sound C limit fun higher op => ∀ value ∈ offered op, value.Sound higher :=
  Sound.bind ha fun _ b _ _ => Sound.pure fun _ _ _ h => absurd h (by simp [ho])

theorem sound_offerOne {build : Element → γ} (literal : Literal) (ho : ∀ value, offered (build value) = [value]) :
    (do return build (← resolve literal)).Sound C limit fun higher op => ∀ value ∈ offered op, value.Sound higher := by
  refine Sound.bind (sound_resolve literal) fun _ value _ hv => Sound.pure fun _ hl found hf => ?_
  have he : found = value := by simpa [ho] using hf
  exact he ▸ hv.mono hl

theorem sound_offerAll {build : List Element → γ} (literals : List Literal)
    (ho : ∀ values, offered (build values) = values) :
    (do return build (← literals.mapM resolve)).Sound C limit fun higher op =>
      ∀ value ∈ offered op, value.Sound higher := by
  refine Sound.bind (sound_resolveAll literals) fun _ values _ hv => Sound.pure fun _ hl found hf => ?_
  rw [ho] at hf
  exact (hv found hf).mono hl

theorem sound_offerNothing {op : γ} (ho : offered op = []) :
    (pure op : Action γ).Sound C limit fun higher op => ∀ value ∈ offered op, value.Sound higher :=
  Sound.pure fun _ _ _ h => absurd h (by simp [ho])

theorem sound_resolveEdit (change : Edit Literal) :
    (change.mapM resolve).Sound C limit fun higher change => ∀ value ∈ change.offered, value.Sound higher := by
  cases change with
  | pushBack value => exact sound_offerOne value fun _ => rfl
  | pushFront value => exact sound_offerOne value fun _ => rfl
  | extendBack values => exact sound_offerAll values fun _ => rfl
  | extendFront values => exact sound_offerAll values fun _ => rfl
  | insert position value => exact sound_offerOne value fun _ => rfl
  | _ => exact sound_offerNothing rfl

theorem sound_resolveEndOp (op : EndOp Literal) :
    (op.mapM resolve).Sound C limit fun higher op => ∀ value ∈ op.offered, value.Sound higher := by
  cases op with
  | pushBack value => exact sound_offerOne value fun _ => rfl
  | pushFront value => exact sound_offerOne value fun _ => rfl
  | extendBack values => exact sound_offerAll values fun _ => rfl
  | extendFront values => exact sound_offerAll values fun _ => rfl
  | _ => exact sound_offerNothing rfl

end Action

/-- The elements that an operation would store. -/
def OwnedOp.offered {α : Type} : OwnedOp α → List α
  | .edit change => change.offered
  | .ends op => op.offered
  | .replace _ value | .assign _ value => [value]
  | _ => []

def SharedOp.offered {α : Type} : SharedOp α → List α
  | .edit change => change.offered
  | .ends op => op.offered
  | _ => []

namespace Action

variable {C : Session.Course} {limit : Nat}

theorem sound_nest {β γ : Type} {a : Action β} {part : β → List Element} {build : β → γ} {offered : γ → List Element}
    (ha : a.Sound C limit fun higher b => ∀ value ∈ part b, value.Sound higher) (ho : ∀ b, offered (build b) = part b) :
    (do return build (← a)).Sound C limit fun higher op => ∀ value ∈ offered op, value.Sound higher := by
  refine Sound.bind ha fun _ b _ hb => Sound.pure fun _ hl found hf => ?_
  rw [ho] at hf
  exact (hb found hf).mono hl

theorem sound_resolveOwnedOp (op : OwnedOp Literal) :
    (op.mapM resolve).Sound C limit fun higher op => ∀ value ∈ op.offered, value.Sound higher := by
  have hask (query : Query Literal) : (query.mapM resolve).Safe C := (safely_neutral C).resolveQuery query
  have hone (literal : Literal) : (resolve literal).Safe C := (safely_neutral C).resolve literal
  cases op with
  | edit change => exact sound_nest (sound_resolveEdit change) fun _ => rfl
  | ends op => exact sound_nest (sound_resolveEndOp op) fun _ => rfl
  | ask query => exact sound_offer (hask query).sound fun _ => rfl
  | indexWithin value span => exact sound_offer (hone value).sound fun _ => rfl
  | remove value => exact sound_offer (hone value).sound fun _ => rfl
  | replace position value => exact sound_offerOne value fun _ => rfl
  | assign position value => exact sound_offerOne value fun _ => rfl
  | _ => exact sound_offerNothing rfl

theorem sound_resolveSharedOp (op : SharedOp Literal) :
    (op.mapM resolve).Sound C limit fun higher op => ∀ value ∈ op.offered, value.Sound higher := by
  have hask (query : Query Literal) : (query.mapM resolve).Safe C := (safely_neutral C).resolveQuery query
  have hone (literal : Literal) : (resolve literal).Safe C := (safely_neutral C).resolve literal
  cases op with
  | edit change => exact sound_nest (sound_resolveEdit change) fun _ => rfl
  | ends op => exact sound_nest (sound_resolveEndOp op) fun _ => rfl
  | ask query => exact sound_offer (hask query).sound fun _ => rfl
  | remove value => exact sound_offer (hone value).sound fun _ => rfl
  | _ => exact sound_offerNothing rfl

end Action

/-! What is read from a document refers to nothing and fits -/

theorem Document.read_of_mem {α : Type} {read? : Document → Option α} {entries : List Document} {values : List α}
    (h : readEntries? read? entries = some values) : ∀ value ∈ values, ∃ entry, read? entry = some value := by
  induction entries generalizing values with
  | nil =>
    cases h
    nofun
  | cons entry entries ih =>
    obtain ⟨first, hfirst, h⟩ := Option.bind_eq_some_iff.1 h
    obtain ⟨rest, hrest, h⟩ := Option.bind_eq_some_iff.1 h
    cases h
    intro value hm
    rcases List.mem_cons.1 hm with rfl | hm
    · exact ⟨entry, hfirst⟩
    · exact ih hrest value hm

theorem Document.read_of_mem_list {α : Type} {read? : Document → Option α} {document : Document} {values : List α}
    (h : readList? read? document = some values) : ∀ value ∈ values, ∃ entry, read? entry = some value := by
  unfold readList? at h
  split at h
  · exact read_of_mem h
  · cases h

theorem Deque.exists_of_ofDocument? {α : Type} {read? : Document → Option α} {document : Document} {d : Deque α}
    (h : Deque.ofDocument? read? document = some d) :
    ∃ items bound, d = Deque.ofList items bound ∧ ∀ value ∈ items, ∃ entry, read? entry = some value := by
  unfold Deque.ofDocument? at h
  split at h
  · obtain ⟨stored, _, h⟩ := Option.bind_eq_some_iff.1 h
    obtain ⟨items, hitems, h⟩ := Option.bind_eq_some_iff.1 h
    obtain ⟨bound, _, h⟩ := Option.bind_eq_some_iff.1 h
    cases h
    exact ⟨items, bound, rfl, Document.read_of_mem_list hitems⟩
  · obtain ⟨items, hitems, h⟩ := Option.bind_eq_some_iff.1 h
    obtain ⟨bound, _, h⟩ := Option.bind_eq_some_iff.1 h
    cases h
    exact ⟨items, bound, rfl, Document.read_of_mem_list hitems⟩
  · cases h

theorem Value.references_ofDocument? {kind : Value.Kind} {document : Document} {value : Element}
    (h : Value.ofDocument? kind document = some value) : value.references = [] := by
  have hints (values : List Int) : Value.referencesOfList (values.map (Value.int : Int → Element)) = [] := by
    induction values with
    | nil => rfl
    | cons first values ih => simp [Value.referencesOfList, Value.references, ih]
  cases kind with
  | integers =>
    obtain ⟨_, _, rfl⟩ := Option.map_eq_some_iff.1 h
    simp [Value.references]
  | texts =>
    obtain ⟨_, _, rfl⟩ := Option.map_eq_some_iff.1 h
    simp [Value.references]
  | deques =>
    obtain ⟨d, _, rfl⟩ := Option.map_eq_some_iff.1 h
    exact hints d.items

theorem Value.fits_of_ofDocument? {kind : Value.Kind} {document : Document} {value : Element}
    (h : Value.ofDocument? kind document = some value) : ∀ d ∈ value.deques, d.Fits := by
  cases kind with
  | integers =>
    obtain ⟨_, _, rfl⟩ := Option.map_eq_some_iff.1 h
    simp [Value.deques]
  | texts =>
    obtain ⟨_, _, rfl⟩ := Option.map_eq_some_iff.1 h
    simp [Value.deques]
  | deques =>
    obtain ⟨d, hd, rfl⟩ := Option.map_eq_some_iff.1 h
    obtain ⟨items, bound, rfl, _⟩ := Deque.exists_of_ofDocument? hd
    refine fits_nested ((Deque.fits_ofList items bound).map _) fun value hv => ?_
    obtain ⟨_, _, rfl⟩ := List.mem_map.1 hv
    simp [Value.deques]

theorem Deque.sound_ofDocument? {kind : Value.Kind} {document : Document} {d : Deque Element} {limit : Nat}
    (h : Deque.ofDocument? (Value.ofDocument? kind) document = some d) : d.Sound limit := by
  obtain ⟨items, bound, rfl, hread⟩ := Deque.exists_of_ofDocument? h
  refine Deque.sound_ofList (fun value hv => ?_) bound
  obtain ⟨entry, hentry⟩ := hread value hv
  refine ⟨fun link hl => ?_, Value.fits_of_ofDocument? hentry⟩
  rw [Value.references_ofDocument? hentry] at hl
  exact absurd hl List.not_mem_nil

namespace Action

variable {C : Session.Course} {limit : Nat} {m : Meaning}

theorem sound_build (source : Source Literal) :
    source.build.Sound C limit fun higher built => ∀ d, built = some d → d.Sound higher := by
  have hsome {d : Deque Element} (hd : ∀ higher, limit ≤ higher → d.Sound higher) :
      (pure (some d) : Action (Option (Deque Element))).Sound C limit fun higher built =>
        ∀ d, built = some d → d.Sound higher :=
    Sound.pure fun _ hl _ he => Option.some.inj he ▸ hd _ hl
  cases source with
  | empty bound => exact hsome fun _ _ => Deque.sound_empty bound
  | settings chosen =>
    dsimp only [Source.build]
    cases hb : (chosen.build? : Option (Deque Element)) with
    | none => exact Sound.interrupt _
    | some d =>
      unfold Settings.build? at hb
      split at hb <;> cases hb
      exact hsome fun _ _ => Deque.sound_empty chosen.bound
  | items values bound =>
    refine Sound.bind (sound_resolveAll values) fun higher resolved _ hr => ?_
    refine Sound.pure fun last hl d he => ?_
    cases he
    exact (Deque.sound_ofList hr bound).mono hl
  | document kind stored => exact Sound.pure fun _ _ d he => Deque.sound_ofDocument? he
  | register name =>
    refine Sound.bind (sound_ownedRegister name) fun _ d _ hd => Sound.pure fun _ hl e he => ?_
    cases he
    exact hd.mono hl

/-! Operations on a deque at hand -/

theorem sound_keep (into : Option String) {d : Deque Element} (hd : d.Sound limit) :
    (OwnedOp.keep into d).Sound C limit fun _ _ => True := by
  cases into with
  | none => exact Sound.done
  | some name => exact sound_setOwned hd

theorem sound_orNoRoom {d : Option (Deque Element)} (hd : ∀ e, d = some e → e.Sound limit) :
    (OwnedOp.orNoRoom d).Sound C limit fun higher e => e.Sound higher := by
  cases d with
  | none => exact Sound.interrupt _
  | some d => exact Sound.pure fun _ hl => (hd d rfl).mono hl

theorem sound_runOwnedOp (hm : m.Related (Safely C) m) {d : Deque Element} (hd : d.Sound limit) {op : OwnedOp Element}
    (ho : ∀ value ∈ op.offered, value.Sound limit) :
    (op.run m d).Sound C limit fun higher result => result.2.Sound higher := by
  have hn := safely_neutral C
  have hsame (answer : Answer) {higher : Nat} (hl : limit ≤ higher) :
      (pure (answer, d) : Action (Answer × Deque Element)).Sound C higher fun last result => result.2.Sound last :=
    Sound.pure fun _ hlast => hd.mono (Nat.le_trans hl hlast)
  have hother (answer : Answer) {e : Deque Element} (he : e.Sound limit) {higher : Nat} (hl : limit ≤ higher) :
      (pure (answer, e) : Action (Answer × Deque Element)).Sound C higher fun last result => result.2.Sound last :=
    Sound.pure fun _ hlast => he.mono (Nat.le_trans hl hlast)
  have hlocate (items : List Element) (value : Element) (onlyFirst : Bool) :
      (locateIn m items value onlyFirst).Safe C := hn.locateIn hm.equal items value onlyFirst
  have hfirst := Nat.le_refl limit
  cases op with
  | edit change => exact hother _ (hd.edit ho) hfirst
  | ends op => exact hother _ (hd.ends ho) hfirst
  | ask query =>
    have hquery : (runQuery (pure d) (locateIn m d.items) query).Safe C :=
      hn.runQuery (hn.pure d) (hn.locateIn hm.equal d.items) query
    exact hquery.then fun _ _ hl => hsame _ hl
  | slot position =>
    dsimp only [OwnedOp.run]
    split
    · exact Sound.interrupt _
    · exact hsame _ hfirst
  | indexWithin value span => exact (hlocate _ value true).then fun _ _ hl => hsame _ hl
  | written =>
    have hwrite : (writeItems m.write d).Safe C := hn.writeItems hm.write d
    exact hwrite.then fun _ _ hl => hsame _ hl
  | remove value =>
    refine (hlocate d.items value true).then fun _ located hl => ?_
    split
    · exact hsame _ hl
    · split
      · exact hsame _ hl
      · rename_i hr
        exact hother _ (hd.removeAt hr) hl
  | removeAt position =>
    dsimp only [OwnedOp.run]
    split
    · exact hsame _ hfirst
    · rename_i hr
      exact hother _ (hd.removeAt hr) hfirst
  | replace position value =>
    dsimp only [OwnedOp.run]
    split
    · exact hsame _ hfirst
    · rename_i hr
      exact hother _ (hd.replace (ho value (List.mem_singleton_self value)) hr) hfirst
  | assign position value =>
    dsimp only [OwnedOp.run]
    split
    · exact Sound.interrupt _
    · rename_i hr
      exact hother _ (hd.replace (ho value (List.mem_singleton_self value)) hr) hfirst
  | addInteger summand => exact hother _ (hd.addInteger summand) hfirst
  | repeatInPlace times =>
    refine Sound.bind (sound_orNoRoom fun e he => hd.repeated? he) fun _ e _ he => ?_
    exact Sound.pure fun _ hl => he.mono hl
  | concatInPlace other =>
    refine Sound.bind (sound_ownedRegister other) fun _ e hl he => ?_
    exact Sound.pure fun _ hlast => ((hd.mono hl).concat he).mono hlast
  | copy into => exact Sound.bind (sound_keep into hd) fun _ _ hl _ => hsame _ hl
  | repeated times into =>
    refine Sound.bind (sound_orNoRoom fun e he => hd.repeated? he) fun _ e hl he => ?_
    exact Sound.bind (sound_keep into he) fun _ _ hlast _ => hsame _ (Nat.le_trans hl hlast)
  | concat other into =>
    refine Sound.bind (sound_ownedRegister other) fun _ e hl he => ?_
    refine Sound.bind (sound_keep into ((hd.mono hl).concat he)) fun _ _ hlast _ => ?_
    exact hsame _ (Nat.le_trans hl hlast)
  | compareWith other =>
    have hread : (ownedRegister other).Safe C := hn.ownedRegister other
    refine hread.then fun _ e hl => ?_
    have hsides : (pinning e.owners (equalItems m.equal d.items e.items)).Safe C :=
      Safe.pinning (hn.equalItems hm.equal d.items e.items) e.owners
    exact hsides.then fun _ _ hl' => hsides.then fun _ _ hlast => hsame _ (by omega)
  | rankWith other =>
    have hread : (ownedRegister other).Safe C := hn.ownedRegister other
    refine hread.then fun _ e hl => ?_
    cases OwnedOp.rank d e with
    | none => exact Sound.interrupt _
    | some answer => exact hsame _ hl
  | hashAgreesWith other =>
    have hread : (ownedRegister other).Safe C := hn.ownedRegister other
    exact hread.then fun _ _ hl => hsame _ hl
  | _ => exact hsame _ hfirst

end Action

end EvictingDeque
