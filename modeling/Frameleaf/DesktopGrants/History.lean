import Frameleaf.DesktopGrants.StepLaws

namespace Frameleaf.DesktopGrants

open Utf8 Trace

/-!
# Where pairings and grants come from

Every stored pairing was approved before, every stored grant was redeemed from
such a pairing, and it is as recent as its approval or the last time that an
administrator confirmed it.  What is gone never comes back, since random values
never repeat.
-/

variable {Hash : Type} {ideal : Ideal Hash}

/-- One step of the world with its surroundings. -/
abbrev Happening (Hash : Type) : Type := Entry (World Hash) Step Answer

/-- An administrator approved a pairing. -/
def Approves
    (happened : Happening Hash)
    (approval : Approval) : Prop :=
  happened.response = .approved approval

/-- A device redeemed a pairing. -/
structure Redeems
    (happened : Happening Hash)
    (redemption : Redemption)
    (receipt : Receipt) : Prop where
  call : happened.step.call = .redeem (some redemption)
  answer : happened.response = .redeemed receipt

/-- A request with a proof was let through. -/
structure Authorizes
    (happened : Happening Hash)
    (proof : Proof)
    (target : Target)
    (shown : PublicGrant) : Prop where
  call : happened.step.call = .authorize (some proof) (some target)
  answer : happened.response = .authorized shown

/-- An administrator confirmed a grant again. -/
structure Reauthenticates
    (happened : Happening Hash)
    (confirmed : Confirmed)
    (id : String) : Prop where
  call : happened.step.call = .reauthenticate confirmed id
  answer : happened.response = .done

/-- An administrator revoked a grant. -/
structure Revokes
    (happened : Happening Hash)
    (confirmed : Confirmed)
    (id : String) : Prop where
  call : happened.step.call = .revoke confirmed id
  answer : happened.response = .done

/-- Manager started with another origin. -/
def ChangesOrigin
    (happened : Happening Hash) : Prop :=
  happened.after.identity.origin ≠ happened.before.identity.origin

/-- The records name the identity that Manager runs with. -/
def Known
    (world : World Hash) : Prop :=
  world.records.identity = some world.identity

variable {clock : Clock} {call : Call} {answer : Answer}

theorem Happens.known
    {world : World Hash}
    {after : Records Hash}
    (happened : Happens ideal world clock call answer after)
    (known : Known world) :
    after.identity = some (answer.identity world.identity) := by
  cases happened
  case rotated =>
    rfl
  all_goals exact known

theorem known_start
    (configured : Option String)
    (now : ℕ) :
    Known (start ideal configured now) := by
  simp [Known, start, construct, Records.empty, firstIdentity]

theorem le_clock_now
    (world : World Hash)
    (step : Step) :
    world.now ≤ (world.clock step).now := by
  simp only [World.clock]
  omega

/-- A random value was drawn already. -/
def Spent
    (ideal : Ideal Hash)
    (world : World Hash)
    (id : String) : Prop :=
  ∃ draw < world.drawn, ideal.random draw = id

variable {id : String}

theorem Spent.ne_next
    {world : World Hash}
    (spent : Spent ideal world id) :
    ideal.random world.drawn ≠ id := by
  obtain ⟨draw, below, rfl⟩ := spent
  intro same
  have := ideal.random_injective same
  omega

theorem Happens.pairing_cases
    {world : World Hash}
    {after : Records Hash}
    (happened : Happens ideal world clock call answer after)
    {pending : Pending Hash}
    (stored : pending ∈ after.pairings) :
    pending ∈ world.records.pairings ∨
      ∃ approval, answer = .approved approval ∧
        pending = approval.pending ideal (epoch ideal world.records) := by
  cases happened
  case rotated =>
    cases stored
  case approved =>
    rcases List.mem_append.mp stored with before | new
    · exact .inl before
    · exact .inr ⟨_, rfl, List.mem_singleton.mp new⟩
  case redeemed =>
    exact .inl (List.mem_of_mem_filter stored)
  all_goals exact .inl stored

theorem Happens.approval
    {world : World Hash}
    {approval : Approval}
    {after : Records Hash}
    (happened : Happens ideal world clock call (.approved approval) after) :
    ∃ admin details, call = .approve (some admin) (some details) ∧
      epoch ideal world.records = digest ideal (some admin) ∧
      approval = details.approval world.identity (ideal.random world.drawn)
        (ideal.random (world.drawn + 1)) clock.now := by
  cases happened
  case approved admin details sameEpoch made =>
    exact ⟨admin, details, rfl, sameEpoch, made⟩

theorem Happens.redemption
    {world : World Hash}
    {redemption : Redemption}
    {receipt : Receipt}
    {after : Records Hash}
    (happened : Happens ideal world clock (.redeem (some redemption))
      (.redeemed receipt) after) :
    ∃ pending,
      RedemptionHolds ideal redemption pending world.records clock.now ∧
        receipt = (pending.grant ideal (ideal.random world.drawn)
          (ideal.random (world.drawn + 1)) clock.now).receipt world.identity
            (ideal.random (world.drawn + 1)) ∧
        after.pairings = world.records.pairings.filter
          (·.pairingId ≠ redemption.pairingId) := by
  generalize answered : Answer.redeemed receipt = answer at happened
  cases happened
  case redeemed pending grant made holds =>
    subst made
    exact ⟨pending, holds, Answer.redeemed.inj answered, rfl⟩
  all_goals cases answered

theorem Happens.eq_of_refused
    {world : World Hash}
    {refusal : Refusal}
    {after : Records Hash}
    (happens : Happens ideal world clock call (.refused refusal) after) :
    after = world.records := by
  cases happens
  rfl

theorem Happens.authorization
    {world : World Hash}
    {proof : Proof}
    {target : Target}
    {shown : PublicGrant}
    {after : Records Hash}
    (happens : Happens ideal world clock
      (.authorize (some proof) (some target)) (.authorized shown) after) :
    ∃ grant, GrantHolds ideal grant world.records clock ∧
      grant.id = proof.grantId ∧
      ProofProves ideal proof target grant world.identity clock.now ∧
      (∀ used ∈ world.records.nonces, clock.now ≤ used.expires →
        used.grantId = proof.grantId → used.nonce ≠ proof.nonce) ∧
      after = world.records.useNonce proof.grantId proof.nonce clock.now := by
  generalize answered : Answer.authorized shown = answer at happens
  cases happens
  case authorized grant holds named unused proves =>
    exact ⟨grant, holds, named, proves, unused, rfl⟩
  all_goals cases answered

theorem Happens.of_changesOrigin
    {world : World Hash}
    {after : Records Hash}
    (happens : Happens ideal world clock call answer after)
    (moves : (answer.identity world.identity).origin ≠ world.identity.origin) :
    after.pairings = [] ∧ after.grants = [] := by
  cases happens
  case rotated =>
    exact ⟨rfl, rfl⟩
  all_goals exact absurd rfl moves

theorem Happens.of_revokes
    {world : World Hash}
    {confirmed : Confirmed}
    {after : Records Hash}
    (happens : Happens ideal world clock (.revoke confirmed id) .done after) :
    after = world.records.without id := by
  cases happens
  rfl

variable {grant : Grant Hash}

theorem Happens.grant_cases
    {world : World Hash}
    {after : Records Hash}
    (happened : Happens ideal world clock call answer after)
    (stored : grant ∈ after.grants) :
    grant ∈ world.records.grants ∨
      (∃ redemption pending, call = .redeem (some redemption) ∧
        RedemptionHolds ideal redemption pending world.records clock.now ∧
        grant = pending.grant ideal (ideal.random world.drawn)
          (ideal.random (world.drawn + 1)) clock.now ∧
        answer = .redeemed (grant.receipt world.identity
          (ideal.random (world.drawn + 1)))) ∨
      (∃ confirmed old, call = .reauthenticate confirmed old.id ∧
        answer = .done ∧ old ∈ world.records.grants ∧
        grant = { old with recentUntil := clock.now + RECENT }) := by
  cases happened
  case rotated =>
    cases stored
  case redeemed redemption pending new holds made =>
    rcases List.mem_append.mp stored with before | isNew
    · exact .inl before
    · obtain rfl := List.mem_singleton.mp isNew
      exact .inr (.inl ⟨redemption, pending, rfl, holds, made, rfl⟩)
  case reauthenticated admin id old sameEpoch holds named =>
    obtain ⟨row, rowStored, rowEq⟩ := List.mem_map.mp stored
    split at rowEq
    · subst rowEq named
      exact .inr (.inr ⟨_, old, rfl, rfl, holds.stored, rfl⟩)
    · exact .inl (rowEq ▸ rowStored)
  case revoked =>
    exact .inl (List.mem_of_mem_filter stored)
  all_goals exact .inl stored

/-- Where a stored pairing comes from. -/
def ComesFrom
    (ideal : Ideal Hash)
    (past : List (Happening Hash))
    (pending : Pending Hash) : Prop :=
  ∃ approves ∈ past, ∃ approval,
    Approves approves approval ∧
      approval.approvedAt = approves.after.now ∧
      approval.expiresAt = approval.approvedAt + RECENT ∧
      pending = approval.pending ideal (epoch ideal approves.before.records)

/-- A grant is as recent as its approval or a later confirmation. -/
def IsRecent
    (past : List (Happening Hash))
    (approval : Approval)
    (grant : Grant Hash) : Prop :=
  grant.recentUntil = approval.approvedAt + RECENT ∨
    ∃ again ∈ past, ∃ confirmed,
      Reauthenticates again confirmed grant.id ∧
        grant.recentUntil = again.after.now + RECENT

/-- An approval, its redemption and the grant that they lead to. -/
structure Leads
    (ideal : Ideal Hash)
    (past : List (Happening Hash))
    (approves redeems : Happening Hash)
    (approval : Approval)
    (redemption : Redemption)
    (receipt : Receipt)
    (grant : Grant Hash) : Prop where
  order : List.Sublist [approves, redeems] past
  approved : Approves approves approval
  redeemed : Redeems redeems redemption receipt
  pairing : redemption.pairingId = approval.pairingId
  approvedAt : approval.approvedAt = approves.after.now
  details : grant.toDetails = approval.toDetails
  id : receipt.id = grant.id
  token : grant.tokenHash = ideal.sha256 receipt.token.toList
  epoch : grant.epoch = epoch ideal approves.before.records
  expiresAt : grant.expiresAt = redeems.after.now + LIFETIME
  recent : IsRecent past approval grant

/-- Where a stored grant comes from. -/
def GrantedFrom
    (ideal : Ideal Hash)
    (past : List (Happening Hash))
    (grant : Grant Hash) : Prop :=
  ∃ approves redeems approval redemption receipt,
    Leads ideal past approves redeems approval redemption receipt grant

/-- The records of a world come from what happened before it. -/
structure Explained
    (ideal : Ideal Hash)
    (past : List (Happening Hash))
    (world : World Hash) : Prop where
  known : Known world
  pairings : ∀ pending ∈ world.records.pairings, ComesFrom ideal past pending
  grants : ∀ grant ∈ world.records.grants, GrantedFrom ideal past grant
  pairingIds : ∀ pending ∈ world.records.pairings,
    Spent ideal world pending.pairingId
  grantIds : ∀ grant ∈ world.records.grants, Spent ideal world grant.id

variable {past : List (Happening Hash)}

theorem ComesFrom.append
    {pending : Pending Hash}
    (comesFrom : ComesFrom ideal past pending)
    (more : List (Happening Hash)) :
    ComesFrom ideal (past ++ more) pending := by
  obtain ⟨approves, member, approval, rest⟩ := comesFrom
  exact ⟨approves, List.mem_append_left _ member, approval, rest⟩

theorem IsRecent.append
    {approval : Approval}
    (recent : IsRecent past approval grant)
    (more : List (Happening Hash)) :
    IsRecent (past ++ more) approval grant := by
  rcases recent with atFirst | ⟨again, member, rest⟩
  · exact .inl atFirst
  · exact .inr ⟨again, List.mem_append_left _ member, rest⟩

theorem GrantedFrom.append
    (grantedFrom : GrantedFrom ideal past grant)
    (more : List (Happening Hash)) :
    GrantedFrom ideal (past ++ more) grant := by
  obtain ⟨approves, redeems, approval, redemption, receipt, leads⟩ :=
    grantedFrom
  exact ⟨approves, redeems, approval, redemption, receipt,
    { leads with
      order := leads.order.trans (List.sublist_append_left _ _)
      recent := leads.recent.append more }⟩

theorem explained_start
    (configured : Option String)
    (now : ℕ) :
    Explained ideal [] (start ideal configured now) where
  known := known_start configured now
  pairings := by simp [start, construct, Records.empty]
  grants := by simp [start, construct, Records.empty]
  pairingIds := by simp [start, construct, Records.empty]
  grantIds := by simp [start, construct, Records.empty]

variable [DecidableEq Hash]

variable (ideal) in
theorem happens_entry
    {world : World Hash}
    (known : Known world)
    (step : Step) :
    Happens ideal world (world.clock step) step.call
      (perform ideal world step).2 (perform ideal world step).1.records :=
  happens known _ _

theorem known_perform
    {world : World Hash}
    (known : Known world)
    (step : Step) :
    Known (perform ideal world step).1 :=
  (happens_entry ideal known step).known known

theorem known_worldAfter
    (configured : Option String)
    (now : ℕ)
    (steps : List Step) :
    Known (worldAfter ideal configured now steps) :=
  invariant_of_kept (fun _ step known => known_perform known step)
    (known_start configured now)

theorem Spent.perform
    {world : World Hash}
    (spent : Spent ideal world id)
    (step : Step) :
    Spent ideal (perform ideal world step).1 id := by
  obtain ⟨draw, below, rfl⟩ := spent
  exact ⟨draw, Nat.lt_add_right 2 below, rfl⟩

variable (ideal) in
theorem spent_next
    (world : World Hash)
    (step : Step) :
    Spent ideal (perform ideal world step).1 (ideal.random world.drawn) :=
  ⟨world.drawn, Nat.lt_add_of_pos_right (by decide), rfl⟩

/-- Every step keeps the records explained. -/
theorem Explained.perform
    {world : World Hash}
    (explained : Explained ideal past world)
    (step : Step) :
    Explained ideal (past ++ [entry (perform ideal) world step])
      (perform ideal world step).1 := by
  have happened := happens_entry ideal explained.known step
  have last : entry (DesktopGrants.perform ideal) world step ∈
      past ++ [entry (DesktopGrants.perform ideal) world step] := by
    simp
  refine
    { known := known_perform explained.known step
      pairings := ?_
      grants := ?_
      pairingIds := ?_
      grantIds := ?_ }
  · intro pending stored
    rcases happened.pairing_cases stored with before | ⟨approval, answered, rfl⟩
    · exact (explained.pairings pending before).append _
    · have made := answered ▸ happened
      obtain ⟨admin, details, _, _, rfl⟩ := made.approval
      exact ⟨_, last, _, answered, rfl, rfl, rfl⟩
  · intro grant stored
    rcases happened.grant_cases stored with before |
      ⟨redemption, pending, called, holds, rfl, answered⟩ |
      ⟨confirmed, old, called, answered, before, rfl⟩
    · exact (explained.grants grant before).append _
    · obtain ⟨approves, member, approval, approved, approvedAt, _, rfl⟩ :=
        explained.pairings pending holds.stored
      exact ⟨approves, _, approval, redemption, _,
        { order := (List.singleton_sublist.mpr member).append
            (List.Sublist.refl _)
          approved
          redeemed := ⟨called, answered⟩
          pairing := holds.named.symm
          approvedAt
          details := rfl
          id := rfl
          token := rfl
          epoch := rfl
          expiresAt := rfl
          recent := .inl rfl }⟩
    · obtain ⟨approves, redeems, approval, redemption, receipt, leads⟩ :=
        (explained.grants old before).append
          [entry (DesktopGrants.perform ideal) world step]
      exact ⟨approves, redeems, approval, redemption, receipt,
        { order := leads.order
          approved := leads.approved
          redeemed := leads.redeemed
          pairing := leads.pairing
          approvedAt := leads.approvedAt
          details := leads.details
          id := leads.id
          token := leads.token
          epoch := leads.epoch
          expiresAt := leads.expiresAt
          recent := .inr ⟨_, last, confirmed, ⟨called, answered⟩, rfl⟩ }⟩
  · intro pending stored
    rcases happened.pairing_cases stored with before | ⟨approval, answered, rfl⟩
    · exact (explained.pairingIds pending before).perform step
    · have made := answered ▸ happened
      obtain ⟨admin, details, _, _, rfl⟩ := made.approval
      exact spent_next ideal world step
  · intro grant stored
    rcases happened.grant_cases stored with before |
      ⟨redemption, pending, called, holds, rfl, answered⟩ |
      ⟨confirmed, old, called, answered, before, rfl⟩
    · exact (explained.grantIds grant before).perform step
    · exact spent_next ideal world step
    · exact (explained.grantIds old before).perform step

variable (ideal) in
theorem explained_worldAfter
    (configured : Option String)
    (now : ℕ)
    (steps : List Step) :
    Explained ideal (happenings ideal configured now steps)
      (worldAfter ideal configured now steps) := by
  exact holds_of_history
    (fun past before step explained => explained.perform step)
    (explained_start configured now)

open Utf8 Trace

/-!
## What is used up

A pairing that was redeemed and a grant that was revoked are gone for good.  A
nonce that was used stays recorded as long as a proof with it could still be
near in time, unless its grant is gone.
-/

variable {Hash : Type} {ideal : Ideal Hash}

/-- A pairing existed and does not any more. -/
structure PairingGone
    (ideal : Ideal Hash)
    (id : String)
    (world : World Hash) : Prop where
  known : Known world
  spent : Spent ideal world id
  absent : ∀ pending ∈ world.records.pairings, pending.pairingId ≠ id

/-- A grant existed and does not any more. -/
structure GrantGone
    (ideal : Ideal Hash)
    (id : String)
    (world : World Hash) : Prop where
  known : Known world
  spent : Spent ideal world id
  absent : ∀ grant ∈ world.records.grants, grant.id ≠ id

/-- A nonce of a grant cannot be used again while it is near in time. -/
structure Blocked
    (ideal : Ideal Hash)
    (used : Nonce)
    (world : World Hash) : Prop where
  known : Known world
  spent : Spent ideal world used.grantId
  blocked : GrantGone ideal used.grantId world ∨
    used ∈ world.records.nonces ∨ used.expires < world.now

theorem Happens.nonce_cases
    {world : World Hash}
    {after : Records Hash}
    (happened : Happens ideal world clock call answer after)
    {used : Nonce}
    (recorded : used ∈ world.records.nonces) :
    used ∈ after.nonces ∨ used.expires < clock.now ∨
      ∀ grant ∈ after.grants, grant.id ≠ used.grantId := by
  cases happened
  case rotated =>
    exact .inr (.inr (by rintro grant ⟨⟩))
  case authorized =>
    rcases Nat.lt_or_ge used.expires clock.now with past | alive
    · exact .inr (.inl past)
    · refine .inl (List.mem_append_left _ ?_)
      exact List.mem_filter.mpr ⟨recorded, decide_eq_true alive⟩
  case revoked admin id sameEpoch =>
    by_cases itsGrant : used.grantId = id
    · refine .inr (.inr fun grant stored => ?_)
      rw [itsGrant]
      exact of_decide_eq_true (List.mem_filter.mp stored).2
    · refine .inl (List.mem_filter.mpr ⟨recorded, ?_⟩)
      exact decide_eq_true itsGrant
  all_goals exact .inl recorded

variable [DecidableEq Hash]

theorem PairingGone.perform
    (world : World Hash)
    (step : Step)
    (gone : PairingGone ideal id world) :
    PairingGone ideal id (perform ideal world step).1 where
  known := known_perform gone.known step
  spent := gone.spent.perform step
  absent := by
    intro pending stored
    have happened := happens_entry ideal gone.known step
    rcases happened.pairing_cases stored with before | ⟨approval, answered, rfl⟩
    · exact gone.absent pending before
    · obtain ⟨admin, details, _, _, rfl⟩ := (answered ▸ happened).approval
      exact gone.spent.ne_next

theorem GrantGone.perform
    (world : World Hash)
    (step : Step)
    (gone : GrantGone ideal id world) :
    GrantGone ideal id (perform ideal world step).1 where
  known := known_perform gone.known step
  spent := gone.spent.perform step
  absent := by
    intro grant stored
    have happened := happens_entry ideal gone.known step
    rcases happened.grant_cases stored with before |
      ⟨redemption, pending, called, holds, rfl, answered⟩ |
      ⟨confirmed, old, called, answered, before, rfl⟩
    · exact gone.absent grant before
    · exact gone.spent.ne_next
    · exact gone.absent old before

theorem Blocked.perform
    {used : Nonce}
    (world : World Hash)
    (step : Step)
    (blocked : Blocked ideal used world) :
    Blocked ideal used (perform ideal world step).1 where
  known := known_perform blocked.known step
  spent := blocked.spent.perform step
  blocked := by
    have later := le_clock_now world step
    rcases blocked.blocked with gone | recorded | past
    · exact .inl (gone.perform world step)
    · have happened := happens_entry ideal blocked.known step
      rcases happened.nonce_cases recorded with still | isPast | absent
      · exact .inr (.inl still)
      · exact .inr (.inr isPast)
      · exact .inl
          { known := known_perform blocked.known step
            spent := blocked.spent.perform step
            absent }
    · exact .inr (.inr (Nat.lt_of_lt_of_le past later))

end Frameleaf.DesktopGrants
