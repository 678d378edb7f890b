import Mathlib.Data.List.Nodup
import Amide.Construction.Messaging.AgentFamily

/-!
# Who is listed and who is reached

`buildAgentFamilyRoster` and `agentFamilyRelationship` each decide who belongs to an agent's family.
The first has the catalog at hand, the second the two agents only.  They agree, and the relation is
symmetric, precisely on a catalog that is coherent about the family (`familyAgrees_iff`): the agent
has one parent, its children are one level below it, and its siblings can be told from the two
agents alone.
-/

namespace Amide

variable {localeCompare : String → String → Ordering}
  {current agent parent child left right : AgentFamilyCatalogEntry}
  {catalog : List AgentFamilyCatalogEntry}

/-! ## The predicates -/

lemma definedAndEqual_iff {a b : Option String} :
    definedAndEqual a b = true ↔ ∃ s, a = some s ∧ b = some s := by
  rw [definedAndEqual, Bool.and_eq_true, Option.isSome_iff_exists, beq_iff_eq]
  constructor
  · rintro ⟨⟨s, hs⟩, heq⟩
    exact ⟨s, hs, heq ▸ hs⟩
  · rintro ⟨s, hs, hs'⟩
    exact ⟨⟨s, hs⟩, hs.trans hs'.symm⟩

/-- `parent` is the parent of `child`, by its path or by its id. -/
lemma isAgentFamilyParent_iff : isAgentFamilyParent parent child = true ↔
      (∃ path, child.parentSessionPath = some path ∧ parent.sessionPath = some path) ∨
        child.parentSessionId = some parent.id := by
  rw [isAgentFamilyParent, Bool.or_eq_true, definedAndEqual_iff, definedAndEqual_iff]
  simp

/-- Two agents name the same parent, by its path or by its id, or are roots without one. -/
def SharesParent (left right : AgentSessionNameScope) : Prop :=
  (∃ path, left.parentSessionPath = some path ∧ right.parentSessionPath = some path) ∨
    (∃ id, left.parentSessionId = some id ∧ right.parentSessionId = some id) ∨
    (left.depth = 0 ∧ right.depth = 0 ∧
      left.parentSessionPath = none ∧ right.parentSessionPath = none ∧
      left.parentSessionId = none ∧ right.parentSessionId = none)

/-- The catalog has an agent that is, or that names as its parent, the one with this id and this
path. -/
def PairedIn (catalog : List AgentFamilyCatalogEntry) (id path : Option String) : Prop :=
  ∃ i p, id = some i ∧ path = some p ∧
    ∃ entry ∈ catalog, (entry.id = i ∧ entry.sessionPath = some p) ∨
      (entry.parentSessionId = some i ∧ entry.parentSessionPath = some p)

lemma hasCatalogParentPair_iff {id path : Option String} :
    hasCatalogParentPair catalog id path = true ↔ PairedIn catalog id path := by
  simp only [hasCatalogParentPair, PairedIn, Bool.and_eq_true, Option.isSome_iff_exists,
    List.any_eq_true, Bool.or_eq_true, beq_iff_eq]
  constructor
  · rintro ⟨⟨⟨i, rfl⟩, p, rfl⟩, entry, hentry, hpair⟩
    exact ⟨i, p, rfl, rfl, entry, hentry, by simpa using hpair⟩
  · rintro ⟨i, p, rfl, rfl, entry, hentry, hpair⟩
    exact ⟨⟨⟨i, rfl⟩, p, rfl⟩, entry, hentry, by simpa using hpair⟩

lemma sameAgentFamilyParent_iff {left right : AgentSessionNameScope} :
    sameAgentFamilyParent left right catalog = true ↔
      SharesParent left right ∨ PairedIn catalog left.parentSessionId right.parentSessionPath ∨
        PairedIn catalog right.parentSessionId left.parentSessionPath := by
  rw [sameAgentFamilyParent, SharesParent]
  split_ifs with hpath hid hpair
  · exact iff_of_true rfl (.inl (.inl (definedAndEqual_iff.mp hpath)))
  · exact iff_of_true rfl (.inl (.inr (.inl (definedAndEqual_iff.mp hid))))
  · rw [Bool.or_eq_true, hasCatalogParentPair_iff, hasCatalogParentPair_iff] at hpair
    exact iff_of_true rfl (.inr hpair)
  · rw [Bool.or_eq_true, hasCatalogParentPair_iff, hasCatalogParentPair_iff] at hpair
    rw [definedAndEqual_iff] at hpath hid
    simp [hpath, hid, hpair, and_assoc]

lemma SharesParent.symm {left right : AgentSessionNameScope} (h : SharesParent left right) :
    SharesParent right left := by
  rcases h with ⟨path, hl, hr⟩ | ⟨id, hl, hr⟩ | ⟨hl, hr, hlp, hrp, hli, hri⟩
  · exact .inl ⟨path, hr, hl⟩
  · exact .inr (.inl ⟨id, hr, hl⟩)
  · exact .inr (.inr ⟨hr, hl, hrp, hlp, hri, hli⟩)

/-- An agent is no evidence about its own family beyond what it says of its parent. -/
lemma sharesParent_of_pairedIn (hleft : isAgentFamilyParent left right ≠ true)
    (hright : isAgentFamilyParent right left ≠ true)
    (hcatalog : ∀ entry ∈ catalog, entry = left ∨ entry = right)
    (h : PairedIn catalog left.parentSessionId right.parentSessionPath) :
    SharesParent left.toAgentSessionNameScope right.toAgentSessionNameScope := by
  rw [Ne, isAgentFamilyParent_iff, not_or] at hleft hright
  obtain ⟨i, p, hi, hp, entry, hentry, ⟨hid, hpath⟩ | ⟨hid, hpath⟩⟩ := h
  · rcases hcatalog entry hentry with rfl | rfl
    · exact absurd ⟨p, hp, hpath⟩ hleft.1
    · exact absurd (hi.trans (congrArg some hid.symm)) hright.2
  · rcases hcatalog entry hentry with rfl | rfl
    · exact .inl ⟨p, hpath, hp⟩
    · exact .inr (.inl ⟨i, hi, hid⟩)

/-- With only the two at hand, agents neither of which is the parent of the other are siblings when
they name the same parent. -/
lemma sameAgentFamilyParent_pair_iff (hpar : isAgentFamilyParent agent current ≠ true)
    (hchild : isAgentFamilyParent current agent ≠ true) :
    sameAgentFamilyParent current.toAgentSessionNameScope agent.toAgentSessionNameScope
        [current, agent] = true ↔
      SharesParent current.toAgentSessionNameScope agent.toAgentSessionNameScope := by
  rw [sameAgentFamilyParent_iff, or_iff_left_iff_imp]
  rintro (hpair | hpair)
  · exact sharesParent_of_pairedIn hchild hpar (by simp) hpair
  · refine (sharesParent_of_pairedIn hpar hchild (fun entry hentry => ?_) hpair).symm
    simpa [or_comm] using hentry

/-! ## The relationship -/

lemma agentFamilyRelationship_eq_parent_iff : agentFamilyRelationship current agent = some .parent ↔
      current.id ≠ agent.id ∧ isAgentFamilyParent agent current = true := by
  rw [agentFamilyRelationship]
  split_ifs with hid hpar <;> simp [*]

lemma agentFamilyRelationship_eq_child_iff : agentFamilyRelationship current agent = some .child ↔
      current.id ≠ agent.id ∧ isAgentFamilyParent agent current ≠ true ∧
        isAgentFamilyParent current agent = true := by
  rw [agentFamilyRelationship]
  split_ifs with hid hpar hchild <;> simp [*]

lemma agentFamilyRelationship_eq_sibling_iff :
    agentFamilyRelationship current agent = some .sibling ↔
      current.id ≠ agent.id ∧ isAgentFamilyParent agent current ≠ true ∧
        isAgentFamilyParent current agent ≠ true ∧ current.depth = agent.depth ∧
        SharesParent current.toAgentSessionNameScope agent.toAgentSessionNameScope := by
  rw [agentFamilyRelationship]
  split_ifs with hid hpar hchild hsibling
  · simp [hid]
  · simp [hpar]
  · simp [hchild]
  · rw [Bool.and_eq_true, decide_eq_true_iff, sameAgentFamilyParent_pair_iff hpar hchild]
      at hsibling
    exact iff_of_true rfl ⟨hid, hpar, hchild, hsibling⟩
  · rw [Bool.and_eq_true, decide_eq_true_iff, sameAgentFamilyParent_pair_iff hpar hchild]
      at hsibling
    exact iff_of_false nofun fun h => hsibling h.2.2.2

/-! ## The listing -/

/-- The roster of `current` lists an agent of the catalog. -/
def Lists (localeCompare : String → String → Ordering) (current : AgentFamilyCatalogEntry)
    (catalog : List AgentFamilyCatalogEntry) (relationship : AgentFamilyRelationship)
    (agent : AgentFamilyCatalogEntry) : Prop :=
  (relationship, agent) ∈ agentFamily localeCompare current catalog

lemma mem_sortByName {entries : List AgentFamilyCatalogEntry} :
    agent ∈ sortByName localeCompare entries ↔ agent ∈ entries :=
  (List.mergeSort_perm entries _).mem_iff

lemma lists_parent_iff : Lists localeCompare current catalog .parent agent ↔
      catalog.find? (fun entry => isAgentFamilyParent entry current) = some agent := by
  simp [Lists, agentFamily]

lemma lists_child_iff : Lists localeCompare current catalog .child agent ↔
      agent ∈ catalog ∧ agent.depth = current.depth + 1 ∧
        isAgentFamilyParent current agent = true := by
  simp [Lists, agentFamily, mem_sortByName]

lemma lists_sibling_iff : Lists localeCompare current catalog .sibling agent ↔
      agent ∈ catalog ∧ (agent.id ≠ current.id ∧ agent.depth = current.depth) ∧
        sameAgentFamilyParent agent.toAgentSessionNameScope current.toAgentSessionNameScope
          catalog = true := by
  simp [Lists, agentFamily, mem_sortByName]

lemma Lists.mem_catalog {relationship : AgentFamilyRelationship}
    (h : Lists localeCompare current catalog relationship agent) : agent ∈ catalog := by
  cases relationship with
  | parent => exact List.mem_of_find?_eq_some (lists_parent_iff.mp h)
  | child => exact (lists_child_iff.mp h).1
  | sibling => exact (lists_sibling_iff.mp h).1

/-- With an id each, the agents listed are those that have a row. -/
theorem lists_iff_row (hids : (catalog.map (·.id)).Nodup) (hagent : agent ∈ catalog)
    (relationship : AgentFamilyRelationship) :
    Lists localeCompare current catalog relationship agent ↔
      familyRow relationship agent ∈
        (buildAgentFamilyRoster localeCompare current catalog).entries := by
  refine ⟨List.mem_map_of_mem, fun hrow => ?_⟩
  obtain ⟨⟨relationship', agent'⟩, hlisted, heq⟩ := List.mem_map.mp hrow
  obtain rfl : relationship' = relationship := congrArg (·.relationship) heq
  obtain rfl := List.inj_on_of_nodup_map hids (Lists.mem_catalog hlisted) hagent
    (congrArg (·.id) heq)
  exact hlisted

/-! ## Where the two agree -/

/-- The roster lists whom the check relates, as what the check says, and the relation is
symmetric. -/
structure FamilyAgrees (localeCompare : String → String → Ordering)
    (current : AgentFamilyCatalogEntry) (catalog : List AgentFamilyCatalogEntry) : Prop where
  lists : ∀ agent ∈ catalog, ∀ relationship,
    Lists localeCompare current catalog relationship agent ↔
      agentFamilyRelationship current agent = some relationship
  parent : ∀ agent ∈ catalog, agentFamilyRelationship current agent = some .parent ↔
    agentFamilyRelationship agent current = some .child
  child : ∀ agent ∈ catalog, agentFamilyRelationship current agent = some .child ↔
    agentFamilyRelationship agent current = some .parent
  sibling : ∀ agent ∈ catalog, agentFamilyRelationship current agent = some .sibling ↔
    agentFamilyRelationship agent current = some .sibling

/-- What a catalog says of the family of `current` is coherent: no two other agents are its parent,
and it is named as its own only after one that is; a child of it is one level below and not its
parent as well, and a sibling is neither and names the same parent in the same way. -/
structure Coherent (current : AgentFamilyCatalogEntry) (catalog : List AgentFamilyCatalogEntry) :
    Prop where
  oneParent : ∀ agent ∈ catalog, ∀ other ∈ catalog, isAgentFamilyParent agent current = true →
    isAgentFamilyParent other current = true → current.id ≠ agent.id → current.id ≠ other.id →
      agent = other
  parentFirst : ∀ before agent after, catalog = before ++ agent :: after →
    isAgentFamilyParent agent current = true → current.id = agent.id →
      ∃ other ∈ before, isAgentFamilyParent other current = true ∧ current.id ≠ other.id
  child : ∀ agent ∈ catalog, isAgentFamilyParent current agent = true →
    (agent.depth = current.depth + 1 ↔ current.id ≠ agent.id) ∧
      (current.id ≠ agent.id → isAgentFamilyParent agent current ≠ true)
  sibling : ∀ agent ∈ catalog, current.id ≠ agent.id → current.depth = agent.depth →
    sameAgentFamilyParent agent.toAgentSessionNameScope current.toAgentSessionNameScope catalog
        = true →
      isAgentFamilyParent agent current ≠ true ∧ isAgentFamilyParent current agent ≠ true ∧
        SharesParent current.toAgentSessionNameScope agent.toAgentSessionNameScope

lemma FamilyAgrees.coherent (h : FamilyAgrees localeCompare current catalog) :
    Coherent current catalog where
  oneParent := by
    intro agent hagent other hother hpar hpar' hid hid'
    have hfind := lists_parent_iff.mp ((h.lists agent hagent .parent).mpr
      (agentFamilyRelationship_eq_parent_iff.mpr ⟨hid, hpar⟩))
    have hfind' := lists_parent_iff.mp ((h.lists other hother .parent).mpr
      (agentFamilyRelationship_eq_parent_iff.mpr ⟨hid', hpar'⟩))
    exact Option.some.inj (hfind.symm.trans hfind')
  parentFirst := by
    rintro before agent after rfl hpar hid
    have hlisted (other : AgentFamilyCatalogEntry)
        (hfind : (before ++ agent :: after).find? (isAgentFamilyParent · current) = some other) :
        current.id ≠ other.id :=
      (agentFamilyRelationship_eq_parent_iff.mp ((h.lists other (List.mem_of_find?_eq_some hfind)
        .parent).mp (lists_parent_iff.mpr hfind))).1
    rw [List.find?_append] at hlisted
    cases hbefore : before.find? (isAgentFamilyParent · current) with
    | none =>
      rw [hbefore, Option.none_or, List.find?_cons_of_pos (by exact hpar)] at hlisted
      exact absurd hid (hlisted agent rfl)
    | some other =>
      rw [hbefore, Option.some_or] at hlisted
      exact ⟨other, List.mem_of_find?_eq_some hbefore, List.find?_some (p := fun entry =>
        isAgentFamilyParent entry current) hbefore, hlisted other rfl⟩
  child := by
    intro agent hagent hchild
    have hnot : current.id ≠ agent.id → isAgentFamilyParent agent current ≠ true := by
      intro hid hpar
      have hback := (h.parent agent hagent).mp
        (agentFamilyRelationship_eq_parent_iff.mpr ⟨hid, hpar⟩)
      exact (agentFamilyRelationship_eq_child_iff.mp hback).2.1 hchild
    refine ⟨?_, hnot⟩
    have hlists := h.lists agent hagent .child
    rw [lists_child_iff, agentFamilyRelationship_eq_child_iff] at hlists
    exact ⟨fun hdepth => (hlists.mp ⟨hagent, hdepth, hchild⟩).1,
      fun hid => (hlists.mpr ⟨hid, hnot hid, hchild⟩).2.1⟩
  sibling := by
    intro agent hagent hid hdepth hsame
    have hlists := (h.lists agent hagent .sibling).mp
      (lists_sibling_iff.mpr ⟨hagent, ⟨hid.symm, hdepth.symm⟩, hsame⟩)
    obtain ⟨-, hpar, hchild, -, hshares⟩ := agentFamilyRelationship_eq_sibling_iff.mp hlists
    exact ⟨hpar, hchild, hshares⟩

/-- Of the agents that are its parent, the first is another. -/
lemma Coherent.parent_ne (h : Coherent current catalog)
    (hfind : catalog.find? (isAgentFamilyParent · current) = some agent) :
    current.id ≠ agent.id ∧ isAgentFamilyParent agent current = true := by
  obtain ⟨hpar, before, after, hsplit, hbefore⟩ := List.find?_eq_some_iff_append.mp hfind
  refine ⟨fun hid => ?_, hpar⟩
  obtain ⟨other, hother, hparent, -⟩ := h.parentFirst before agent after hsplit hpar hid
  simpa [hparent] using hbefore other hother

lemma Coherent.lists_iff (h : Coherent current catalog) (hagent : agent ∈ catalog)
    (relationship : AgentFamilyRelationship) :
    Lists localeCompare current catalog relationship agent ↔
      agentFamilyRelationship current agent = some relationship := by
  cases relationship with
  | parent =>
    rw [lists_parent_iff, agentFamilyRelationship_eq_parent_iff]
    refine ⟨h.parent_ne, ?_⟩
    rintro ⟨hid, hpar⟩
    obtain ⟨first, hfirst⟩ : ∃ first,
        catalog.find? (isAgentFamilyParent · current) = some first :=
      Option.isSome_iff_exists.mp (List.find?_isSome.mpr ⟨agent, hagent, hpar⟩)
    obtain ⟨hid', hpar'⟩ := h.parent_ne hfirst
    rw [hfirst, h.oneParent first (List.mem_of_find?_eq_some hfirst) agent hagent hpar' hpar hid'
      hid]
  | child =>
    rw [lists_child_iff, agentFamilyRelationship_eq_child_iff]
    constructor
    · rintro ⟨-, hdepth, hchild⟩
      obtain ⟨hlevel, hpar⟩ := h.child agent hagent hchild
      exact ⟨hlevel.mp hdepth, hpar (hlevel.mp hdepth), hchild⟩
    · rintro ⟨hid, -, hchild⟩
      exact ⟨hagent, (h.child agent hagent hchild).1.mpr hid, hchild⟩
  | sibling =>
    rw [lists_sibling_iff, agentFamilyRelationship_eq_sibling_iff]
    constructor
    · rintro ⟨-, ⟨hid, hdepth⟩, hsame⟩
      obtain ⟨hpar, hchild, hshares⟩ := h.sibling agent hagent hid.symm hdepth.symm hsame
      exact ⟨hid.symm, hpar, hchild, hdepth.symm, hshares⟩
    · rintro ⟨hid, -, -, hdepth, hshares⟩
      exact ⟨hagent, ⟨hid.symm, hdepth.symm⟩, sameAgentFamilyParent_iff.mpr (.inl hshares.symm)⟩

/-- Siblings are siblings both ways, whatever the catalog. -/
lemma agentFamilyRelationship_sibling_comm : agentFamilyRelationship current agent = some .sibling ↔
      agentFamilyRelationship agent current = some .sibling := by
  have hturn : ∀ a b, agentFamilyRelationship a b = some .sibling →
      agentFamilyRelationship b a = some .sibling := by
    intro a b h
    obtain ⟨hid, hpar, hchild, hdepth, hshares⟩ := agentFamilyRelationship_eq_sibling_iff.mp h
    exact agentFamilyRelationship_eq_sibling_iff.mpr
      ⟨hid.symm, hchild, hpar, hdepth.symm, hshares.symm⟩
  exact ⟨hturn current agent, hturn agent current⟩

lemma Coherent.familyAgrees (h : Coherent current catalog) :
    FamilyAgrees localeCompare current catalog where
  lists _ hagent relationship := h.lists_iff hagent relationship
  parent := by
    intro agent hagent
    rw [agentFamilyRelationship_eq_parent_iff, agentFamilyRelationship_eq_child_iff]
    constructor
    · rintro ⟨hid, hpar⟩
      exact ⟨hid.symm, fun hchild => (h.child agent hagent hchild).2 hid hpar, hpar⟩
    · rintro ⟨hid, -, hpar⟩
      exact ⟨hid.symm, hpar⟩
  child := by
    intro agent hagent
    rw [agentFamilyRelationship_eq_child_iff, agentFamilyRelationship_eq_parent_iff]
    constructor
    · rintro ⟨hid, -, hchild⟩
      exact ⟨hid.symm, hchild⟩
    · rintro ⟨hid, hchild⟩
      exact ⟨hid.symm, (h.child agent hagent hchild).2 hid.symm, hchild⟩
  sibling _ _ := agentFamilyRelationship_sibling_comm

/-- **Listing and reach.**  The roster lists exactly the agents that the check relates to `current`,
each as what the check says, and the relation is symmetric, precisely if the catalog is coherent
about the family of `current`. -/
theorem familyAgrees_iff (localeCompare : String → String → Ordering)
    (current : AgentFamilyCatalogEntry) (catalog : List AgentFamilyCatalogEntry) :
    FamilyAgrees localeCompare current catalog ↔ Coherent current catalog :=
  ⟨FamilyAgrees.coherent, Coherent.familyAgrees⟩

/-- **Reach is mutual**, coherent or not. -/
theorem assertAgentFamilyReach_comm (a b : AgentFamilyCatalogEntry) :
    (assertAgentFamilyReach a b).isOk = (assertAgentFamilyReach b a).isOk := by
  have hsibling := @agentFamilyRelationship_sibling_comm a b
  unfold agentFamilyRelationship at hsibling
  unfold assertAgentFamilyReach agentFamilyRelationship
  grind [Except.toBool]

/-! ## A sibling beyond reach -/

/-- A root and two children of it, one of which knows it by its id and one by its path. -/
def mixedCatalog : List AgentFamilyCatalogEntry :=
  [{ id := "root", depth := 0, status := .running, sessionPath := some "/root" },
    { id := "id-child", depth := 1, status := .idle, parentSessionId := some "root" },
    { id := "path-child", depth := 1, status := .inactive, parentSessionPath := some "/root" }]

/-- The children are listed as siblings, and are out of each other's reach. -/
theorem not_familyAgrees_mixed :
    ¬∀ current ∈ mixedCatalog, FamilyAgrees compare current mixedCatalog := by
  intro h
  have hagrees := h mixedCatalog[1] (by decide)
  have hlists : Lists compare mixedCatalog[1] mixedCatalog .sibling mixedCatalog[2] :=
    lists_sibling_iff.mpr (by decide)
  have hreach := (hagrees.lists mixedCatalog[2] (by decide) .sibling).mp hlists
  have hnone : agentFamilyRelationship mixedCatalog[1] mixedCatalog[2] = none := by decide
  cases hreach

end Amide
