import LocalModelWorks.Plan.Digest

/-!
# A replacement after its acquisition

Between the review of a repository update and its replacement the resources are fetched, so
that a fresh plan reuses what the reviewed plan was to download or copy.
-/

namespace LocalModelWorks.Plan

variable (approved : List Resource) (r : Resource)

def approve : Resource :=
  if r.action = .reuse && r.verification.exact then
    match approved.find? fun a => a.key = r.key && a.nodeID = r.nodeID with
    | some a =>
      { r with action := a.action, sourceNode := a.sourceNode, sourcePath := a.sourcePath, credentialID := a.credentialID }
    | none => r
  else r

def replacementPlanMatchesAfterAcquisition (D : Digester) (reviewed fresh : DeploymentPlan) : Bool :=
  match fresh.acquisition, reviewed.acquisition with
  | some acquired, some approved =>
    (acquired.resources.all fun r => !r.required || r.verification.exact) &&
      (D.planDigest fresh = D.planDigest reviewed || D.planDigest { fresh with
          acquisition := some { acquired with resources := acquired.resources.map (approve approved.resources) } } =
          D.planDigest reviewed)
  | _, _ => false

/-- A fresh resource as it was reviewed. It may be local by now, and its declared size is not part of the review. -/
structure Approved (fresh reviewed : Resource) : Prop where
  nodeID : fresh.nodeID = reviewed.nodeID
  required : fresh.required = reviewed.required
  spec : { fresh.spec with sizeBytes := none } = { reviewed.spec with sizeBytes := none }
  action : fresh.action ≠ .reuse → fresh.action = reviewed.action ∧ fresh.sourceNode = reviewed.sourceNode ∧
    fresh.sourcePath = reviewed.sourcePath ∧ fresh.credentialID = reviewed.credentialID

theorem approve_eq : ∃ action sourceNode sourcePath credentialID,
    approve approved r = { r with action, sourceNode, sourcePath, credentialID } := by
  unfold approve
  split
  · split
    · exact ⟨_, _, _, _, rfl⟩
    · exact ⟨_, _, _, _, rfl⟩
  · exact ⟨_, _, _, _, rfl⟩

theorem Approved.of_contract {r s : Resource} (h : r.contract = s.contract) : Approved r s := by
  simp only [Resource.contract, ResourceContract.mk.injEq] at h
  obtain ⟨hNode, hMust, hAct, hSourceNode, hSourcePath, hCred, hSpec⟩ := h
  exact ⟨hNode, hMust, hSpec, fun _ => ⟨hAct, hSourceNode, hSourcePath, hCred⟩⟩

theorem Approved.of_approve {approved : List Resource} {r s : Resource} (h : (approve approved r).contract = s.contract) :
    Approved r s := by
  have hApproved := Approved.of_contract h
  obtain ⟨action, sourceNode, sourcePath, credentialID, hEq⟩ := approve_eq approved r
  rw [hEq] at hApproved
  refine { hApproved with action := fun hAct => ?_ }
  have hSelf : approve approved r = r := by simp [approve, hAct]
  rw [hSelf] at h
  exact (Approved.of_contract h).action hAct

theorem forall₂_of_map_contract {xs ys : List Resource} (f : Resource → Resource)
    (h : (xs.map f).map Resource.contract = ys.map Resource.contract) :
    List.Forall₂ (fun r s => (f r).contract = s.contract) xs ys := by
  rwa [← List.forall₂_eq_eq_eq, List.forall₂_map_left_iff, List.forall₂_map_left_iff, List.forall₂_map_right_iff] at h

theorem all_required_exact {rs : List Resource} : (rs.all fun r => !r.required || r.verification.exact) = true ↔
    ∀ r ∈ rs, r.required = true → r.verification.exact = true := by
  rw [List.all_eq_true]
  refine forall₂_congr fun r _ => ?_
  cases r.required <;> simp

theorem replacementPlanMatches_iff {D : Digester} {reviewed fresh : DeploymentPlan} :
    replacementPlanMatchesAfterAcquisition D reviewed fresh = true ↔
      ∃ acquired approved, fresh.acquisition = some acquired ∧ reviewed.acquisition = some approved ∧
        (∀ r ∈ acquired.resources, r.required = true → r.verification.exact = true) ∧
        (D.planDigest fresh = D.planDigest reviewed ∨ D.planDigest { fresh with
            acquisition := some { acquired with resources := acquired.resources.map (approve approved.resources) } } =
            D.planDigest reviewed) := by
  unfold replacementPlanMatchesAfterAcquisition
  constructor
  · intro h
    split at h
    next acquired approved hFresh hReviewed =>
      rw [Bool.and_eq_true, Bool.or_eq_true, decide_eq_true_iff, decide_eq_true_iff] at h
      exact ⟨acquired, approved, hFresh, hReviewed, all_required_exact.mp h.1, h.2⟩
    · cases h
  rintro ⟨acquired, approved, hFresh, hReviewed, hExact, hDigest⟩
  rw [hFresh, hReviewed]
  rw [Bool.and_eq_true, Bool.or_eq_true, decide_eq_true_iff, decide_eq_true_iff]
  exact ⟨all_required_exact.mpr hExact, hDigest⟩

theorem SameBound.of_acquisition {D : Digester} {p q : DeploymentPlan} {acquired acquisition : Acquisition}
    (hGot : p.acquisition = some acquired) (h : SameBound D { p with acquisition := some acquisition } q)
    (hTargets : acquisition.targets = acquired.targets) : SameBound D p q := by
  have hSame : p.targets = ({ p with acquisition := some acquisition } : DeploymentPlan).targets := by
    simp [DeploymentPlan.targets, hGot, hTargets]
  exact { h with targets := hSame.trans h.targets }

theorem resources_of_acquisition {p : DeploymentPlan} {acquisition : Acquisition} (h : p.acquisition = some acquisition) :
    p.resources = acquisition.resources.map Resource.contract := by
  simp [DeploymentPlan.resources, h]

theorem replacement_matches_reviewed {D : Digester} (hSeparates : D.Separates) {reviewed fresh : DeploymentPlan}
    (h : replacementPlanMatchesAfterAcquisition D reviewed fresh = true) :
    ∃ acquired approved, fresh.acquisition = some acquired ∧ reviewed.acquisition = some approved ∧
      List.Forall₂ Approved acquired.resources approved.resources ∧ SameBound D fresh reviewed := by
  obtain ⟨acquired, approved, hFresh, hReviewed, _, hDigest⟩ := replacementPlanMatches_iff.mp h
  refine ⟨acquired, approved, hFresh, hReviewed, ?_⟩
  rcases hDigest with hDigest | hDigest
  · obtain ⟨hBound, hResources⟩ := Digester.contract_binds (hSeparates.contract hDigest)
    rw [resources_of_acquisition hFresh, resources_of_acquisition hReviewed] at hResources
    rw [← List.map_id acquired.resources] at hResources
    have hContracts := forall₂_of_map_contract id hResources
    exact ⟨hContracts.imp fun _ _ => Approved.of_contract, hBound⟩
  obtain ⟨hBound, hResources⟩ := Digester.contract_binds (hSeparates.contract hDigest)
  rw [resources_of_acquisition rfl, resources_of_acquisition hReviewed] at hResources
  have hContracts := forall₂_of_map_contract _ hResources
  exact ⟨hContracts.imp fun _ _ => Approved.of_approve, SameBound.of_acquisition hFresh hBound rfl⟩

def peerImage : Resource :=
  { sampleResource .image "i".toList with
    action := .peerCopy, sourceNode := "n2".toList, sourcePath := "/peer".toList, verification := ⟨.missing, none, false⟩ }

theorem replacementPlanMatches_copied (reviewed fresh : Int) :
    replacementPlanMatchesAfterAcquisition plainDigester (samplePlan [sized reviewed peerImage])
      (samplePlan [sized fresh (sampleResource .image "i".toList)]) = true :=
  replacementPlanMatches_iff.mpr ⟨_, _, rfl, rfl, by simp [sized, sampleResource, Verification.exact], .inr rfl⟩

theorem replacement_matches_reviewed_copied :
    replacementPlanMatchesAfterAcquisition plainDigester (samplePlan [sized 1 peerImage])
        (samplePlan [sized 1 (sampleResource .image "i".toList)]) = true ∧
      SameBound plainDigester (samplePlan [sized 1 (sampleResource .image "i".toList)])
        (samplePlan [sized 1 peerImage]) := by
  have hMatch := replacementPlanMatches_copied 1 1
  obtain ⟨_, _, _, _, _, hBound⟩ := replacement_matches_reviewed separates_plain hMatch
  exact ⟨hMatch, hBound⟩

theorem replacement_size_unreviewed : plainDigester.Separates ∧
      replacementPlanMatchesAfterAcquisition plainDigester (samplePlan [sized 1 peerImage])
        (samplePlan [sized 2 (sampleResource .image "i".toList)]) = true ∧
      ∃ acquired approved, (samplePlan [sized 2 (sampleResource .image "i".toList)]).acquisition = some acquired ∧
        (samplePlan [sized 1 peerImage]).acquisition = some approved ∧
        ∃ r ∈ acquired.resources, ∀ s ∈ approved.resources, r.spec ≠ s.spec := by
  refine ⟨separates_plain, replacementPlanMatches_copied 1 2, _, _, rfl, rfl, _, List.mem_singleton_self _, ?_⟩
  intro s hs
  rw [List.mem_singleton.mp hs]
  decide

end LocalModelWorks.Plan
