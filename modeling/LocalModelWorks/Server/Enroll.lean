import LocalModelWorks.Transition
import LocalModelWorks.Shell

/-!
# Enrollment (`agent.go`)

Any number of `Enroll` calls present one token.
-/

namespace LocalModelWorks.Server.Enroll

open List
open Shell (Text)
open Transition

structure EnrollRequest where
  caFingerprint : Text
  publicKeyPem : Text
  hostname : Text
  deriving DecidableEq

structure Token where
  expiresAt : Nat
  usedAt : Option Nat
  usedByNode : Option Text
  deriving DecidableEq

structure NodeRow where
  id : Text
  displayName : Text
  labels : Text
  status : Text
  createdAt : Nat
  certificateExpiresAt : Option Nat
  deriving DecidableEq

structure CredentialRow where
  nodeID : Text
  publicKeyPem : Text
  serial : Text
  issuedAt : Nat
  expiresAt : Nat
  deriving DecidableEq

structure Certificate where
  nodeID : Text
  serial : Text
  expiresAt : Nat
  deriving DecidableEq

inductive EarlyError
  | fingerprint
  | publicKey (text : Text)
  | notRecognized
  | alreadyUsed
  | expired
  | internal (text : Text)
  deriving DecidableEq

inductive LateError
  | credential (text : Text)
  | consumed
  | certificate (text : Text)
  deriving DecidableEq

inductive Code
  | unauthenticated
  | invalidArgument
  | internal
  | aborted
  deriving DecidableEq

def EarlyError.code : EarlyError → Code
  | .fingerprint | .notRecognized | .alreadyUsed | .expired => .unauthenticated
  | .publicKey _ => .invalidArgument
  | .internal _ => .internal

def EarlyError.message : EarlyError → Text
  | .fingerprint => "CA fingerprint mismatch: agent pinned a different CA".toList
  | .publicKey text => "public key: ".toList ++ text
  | .notRecognized => "enrollment token not recognized".toList
  | .alreadyUsed => "enrollment token already used".toList
  | .expired => "enrollment token expired".toList
  | .internal text => text

def LateError.code : LateError → Code
  | .credential _ | .certificate _ => .internal
  | .consumed => .aborted

def LateError.message : LateError → Text
  | .credential text | .certificate text => text
  | .consumed => "enrollment token was consumed concurrently".toList

structure Pass where
  now : Nat
  cert : Certificate
  deriving DecidableEq

inductive Phase
  | begun
  | checked (now : Nat)
  | issued (p : Pass)
  | created (p : Pass)
  | credentialed (p : Pass)
  | consumed (p : Pass)
  | enrolled (p : Pass)
  | rejected (e : EarlyError)
  | orphaned (e : LateError) (p : Pass)
  deriving DecidableEq

structure Call where
  request : EnrollRequest
  phase : Phase
  deriving DecidableEq

structure State where
  token : Option Token
  nodes : List NodeRow
  credentials : List CredentialRow
  calls : List Call
  deriving DecidableEq

structure Authority where
  fingerprint : Text
  parsePublicKey : Text → Except Text Unit

inductive Answer
  | token (result : Except Text Nat)
  | certificate (result : Except Text Certificate)
  | statement (failure : Option Text)

inductive Step
  | start (r : EnrollRequest)
  | answer (i : Nat) (a : Answer)

def dbTime (now : Nat) : Nat := now / 1000000

def Token.expired (t : Token) (now : Nat) : Bool := t.expiresAt * 1000000 < now

def Token.usable (t : Token) (now : Nat) : Bool := t.usedAt.isNone && dbTime now < t.expiresAt

variable (ca : Authority) (r : EnrollRequest)

def firstPhase : Phase :=
  if r.caFingerprint ≠ ca.fingerprint then .rejected .fingerprint
  else
    match ca.parsePublicKey r.publicKeyPem with
    | .error text => .rejected (.publicKey text)
    | .ok _ => .begun

def lookupPhase (token : Option Token) : Except Text Nat → Phase
  | .error text => .rejected (.internal text)
  | .ok now =>
    match token with
    | none => .rejected .notRecognized
    | some t =>
      if t.usedAt.isSome then .rejected .alreadyUsed
      else if t.expired now then .rejected .expired
      else .checked now

def displayName (nodeID : Text) : Text :=
  if r.hostname = [] then "node-".toList ++ nodeID.take 8 else r.hostname

def nodeRow (p : Pass) : NodeRow :=
  ⟨p.cert.nodeID, displayName r p.cert.nodeID, "\x7b\x7d".toList, "pending".toList, dbTime p.now, none⟩

def credentialRow (p : Pass) : CredentialRow :=
  ⟨p.cert.nodeID, r.publicKeyPem, p.cert.serial, dbTime p.now, dbTime p.cert.expiresAt⟩

def upsert (rows : List CredentialRow) (row : CredentialRow) : List CredentialRow :=
  if rows.any fun old => old.nodeID = row.nodeID then rows.map fun old => if old.nodeID = row.nodeID then row else old
  else rows ++ [row]

variable (s : State) (i : Nat) (c : Call)

def State.goto (phase : Phase) : State :=
  { s with calls := s.calls.set i { c with phase := phase } }

def State.act (a : Answer) : State :=
  match c.phase, a with
  | .begun, .token result => s.goto i c (lookupPhase s.token result)
  | .checked _, .certificate (.error text) => s.goto i c (.rejected (.internal text))
  | .checked now, .certificate (.ok cert) => s.goto i c (.issued ⟨now, cert⟩)
  | .issued _, .statement (some text) => s.goto i c (.rejected (.internal text))
  | .issued p, .statement none =>
    if s.nodes.any fun row => row.id = p.cert.nodeID then
      s.goto i c (.rejected (.internal "UNIQUE constraint failed: nodes.id".toList))
    else { s.goto i c (.created p) with nodes := s.nodes ++ [nodeRow c.request p] }
  | .created p, .statement (some text) => s.goto i c (.orphaned (.credential text) p)
  | .created p, .statement none =>
    { s.goto i c (.credentialed p) with credentials := upsert s.credentials (credentialRow c.request p) }
  | .credentialed p, .statement (some _) => s.goto i c (.orphaned .consumed p)
  | .credentialed p, .statement none =>
    match s.token with
    | none => s.goto i c (.orphaned .consumed p)
    | some t =>
      if t.usable p.now then
        { s.goto i c (.consumed p) with
          token := some { t with usedAt := some (dbTime p.now), usedByNode := some p.cert.nodeID } }
      else s.goto i c (.orphaned .consumed p)
  | .consumed p, .statement (some text) => s.goto i c (.orphaned (.certificate text) p)
  | .consumed p, .statement none =>
    { s.goto i c (.enrolled p) with
      nodes := s.nodes.map fun row =>
        if row.id = p.cert.nodeID then { row with certificateExpiresAt := some (dbTime p.cert.expiresAt) } else row }
  | _, _ => s

def State.next : Step → State
  | .start r => { s with calls := s.calls ++ [⟨r, firstPhase ca r⟩] }
  | .answer i a =>
    match s.calls[i]? with
    | none => s
    | some c => s.act i c a

def Phase.awaits : Phase → Answer → Bool
  | .begun, .token _ => true
  | .checked _, .certificate _ => true
  | .issued _, .statement _ | .created _, .statement _ | .credentialed _, .statement _ | .consumed _, .statement _ => true
  | _, _ => false

def State.enabled : Step → Bool
  | .start _ => true
  | .answer i a => (s.calls[i]?).any fun c => c.phase.awaits a

def system : System State Step where
  init s := s.nodes = [] ∧ s.credentials = [] ∧ s.calls = []
  enabled s st := s.enabled st = true
  next := State.next ca

def Phase.owner : Phase → Option Text
  | .begun | .checked _ | .issued _ | .rejected _ => none
  | .created p | .credentialed p | .consumed p | .enrolled p | .orphaned _ p => some p.cert.nodeID

def Phase.hasCredential : Phase → Bool
  | .credentialed _ | .consumed _ | .enrolled _ | .orphaned .consumed _ | .orphaned (.certificate _) _ => true
  | .begun | .checked _ | .issued _ | .rejected _ | .created _ | .orphaned (.credential _) _ => false

def Phase.hasToken : Phase → Bool
  | .consumed _ | .enrolled _ | .orphaned (.certificate _) _ => true
  | .begun | .checked _ | .issued _ | .rejected _ | .created _ | .credentialed _ | .orphaned (.credential _) _
  | .orphaned .consumed _ => false

def Phase.isOrphaned : Phase → Bool
  | .orphaned _ _ => true
  | _ => false

theorem Phase.rowless {phase : Phase} (h : phase.owner = none) :
    phase.hasCredential = false ∧ phase.hasToken = false ∧ phase.isOrphaned = false := by
  cases phase with
  | begun | checked | issued | rejected => exact ⟨rfl, rfl, rfl⟩
  | created | credentialed | consumed | enrolled | orphaned => cases h

inductive Acts (s : State) (i : Nat) (c : Call) : State → Prop
  | idle : Acts s i c s
  | early {phase : Phase} (hBefore : c.phase.owner = none) (hAfter : phase.owner = none) : Acts s i c (s.goto i c phase)
  | create {p : Pass} (hPhase : c.phase = .issued p) (hFresh : p.cert.nodeID ∉ s.nodes.map NodeRow.id) :
      Acts s i c { s.goto i c (.created p) with nodes := s.nodes ++ [nodeRow c.request p] }
  | credential {p : Pass} (hPhase : c.phase = .created p) :
      Acts s i c
        { s.goto i c (.credentialed p) with credentials := upsert s.credentials (credentialRow c.request p) }
  | use {p : Pass} {t : Token} (hPhase : c.phase = .credentialed p) (hToken : s.token = some t)
      (hUsable : t.usable p.now = true) :
      Acts s i c { s.goto i c (.consumed p) with
        token := some { t with usedAt := some (dbTime p.now), usedByNode := some p.cert.nodeID } }
  | certify {p : Pass} (hPhase : c.phase = .consumed p) :
      Acts s i c { s.goto i c (.enrolled p) with
        nodes := s.nodes.map fun row =>
          if row.id = p.cert.nodeID then { row with certificateExpiresAt := some (dbTime p.cert.expiresAt) } else row }
  | orphan {e : LateError} {p : Pass} (hOwner : c.phase.owner = some p.cert.nodeID)
      (hCredential : (Phase.orphaned e p).hasCredential = c.phase.hasCredential)
      (hToken : (Phase.orphaned e p).hasToken = c.phase.hasToken) : Acts s i c (s.goto i c (.orphaned e p))

variable {ca} {s : State} {i : Nat} {c : Call} {a : Answer}

theorem lookupPhase_owner (token : Option Token) (result : Except Text Nat) : (lookupPhase token result).owner = none := by
  unfold lookupPhase
  split
  · rfl
  split
  · rfl
  split
  · rfl
  · split <;> rfl

theorem act_cases (s : State) (i : Nat) (c : Call) (a : Answer) : Acts s i c (s.act i c a) := by
  obtain ⟨request, phase⟩ := c
  dsimp only [State.act]
  split
  · exact .early rfl (lookupPhase_owner _ _)
  · exact .early rfl rfl
  · exact .early rfl rfl
  · exact .early rfl rfl
  · split
    · exact .early rfl rfl
    next hAny =>
    refine .create rfl fun hMem => hAny ?_
    obtain ⟨row, hRow, hID⟩ := mem_map.mp hMem
    exact any_eq_true.mpr ⟨row, hRow, decide_eq_true hID⟩
  · exact .orphan rfl rfl rfl
  · exact .credential rfl
  · exact .orphan rfl rfl rfl
  · split
    · exact .orphan rfl rfl rfl
    next hToken =>
    split
    · exact .use rfl hToken ‹_›
    · exact .orphan rfl rfl rfl
  · exact .orphan rfl rfl rfl
  · exact .certify rfl
  · exact .idle

structure Owned (calls : List Call) (nodes credentials : List Text) : Prop where
  stored : ∀ c ∈ calls, ∀ id ∈ c.phase.owner, id ∈ nodes
  distinct : ∀ {i j : Nat} {c d : Call} {id : Text}, calls[i]? = some c → calls[j]? = some d →
    c.phase.owner = some id → d.phase.owner = some id → i = j
  held : ∀ id ∈ credentials, ∃ (j : Nat) (c : Call), calls[j]? = some c ∧ c.phase.hasCredential = true ∧
    c.phase.owner = some id

variable {calls : List Call} {nodes credentials : List Text} (phase : Phase)

theorem getElem?_set_cases {j : Nat} {d d' : Call} (h : (calls.set i d')[j]? = some d) :
    (j = i ∧ d = d') ∨ (j ≠ i ∧ calls[j]? = some d) := by
  rw [getElem?_set] at h
  split at h
  · next hj =>
    split at h
    · exact .inl ⟨hj.symm, (Option.some.inj h).symm⟩
    · cases h
  · next hj => exact .inr ⟨Ne.symm hj, h⟩

theorem getElem?_set_some {d : Call} (hCall : calls[i]? = some c) : (calls.set i d)[i]? = some d := by
  rw [getElem?_set_self (List.getElem?_eq_some_iff.mp hCall).1]

section

variable (h : Owned calls nodes credentials) (hCall : calls[i]? = some c)
include h hCall

theorem Owned.set {nodes' : List Text} (hMore : ∀ id ∈ nodes, id ∈ nodes') (hStored : ∀ id ∈ phase.owner, id ∈ nodes')
    (hAlone : ∀ {k : Nat} {d : Call} {id : Text}, k ≠ i → calls[k]? = some d → phase.owner = some id → d.phase.owner ≠ some id)
    (hHeld : ∀ id, c.phase.hasCredential = true → c.phase.owner = some id → phase.hasCredential = true ∧ phase.owner = some id) :
    Owned (calls.set i { c with phase := phase }) nodes' credentials where
  stored d hd id hID := by
    rcases mem_or_eq_of_mem_set hd with hd | rfl
    · exact hMore id (h.stored d hd id hID)
    · exact hStored id hID
  distinct := by
    intro j k d d' id hd hd' hID hID'
    rcases getElem?_set_cases hd with ⟨rfl, rfl⟩ | ⟨hj, hBefore⟩
    · rcases getElem?_set_cases hd' with ⟨rfl, rfl⟩ | ⟨hk, hBefore'⟩
      · rfl
      · exact absurd hID' (hAlone hk hBefore' hID)
    rcases getElem?_set_cases hd' with ⟨rfl, rfl⟩ | ⟨hk, hBefore'⟩
    · exact absurd hID (hAlone hj hBefore hID')
    · exact h.distinct hBefore hBefore' hID hID'
  held id hID := by
    obtain ⟨j, d, hd, hHas, hOwns⟩ := h.held id hID
    by_cases hj : j = i
    · subst hj
      obtain rfl := Option.some.inj (hd.symm.trans hCall)
      exact ⟨j, _, getElem?_set_some hCall, hHeld id hHas hOwns⟩
    · exact ⟨j, d, by rw [getElem?_set_ne (Ne.symm hj)]; exact hd, hHas, hOwns⟩

theorem Owned.kept (hOwner : phase.owner = c.phase.owner)
    (hCredential : c.phase.hasCredential = true → phase.hasCredential = true) :
    Owned (calls.set i { c with phase := phase }) nodes credentials := by
  refine h.set phase hCall (fun _ => id) (fun id hID => ?_) (fun hk hd hID hID' => ?_) fun id hHas hOwns => ?_
  · exact h.stored c (mem_of_getElem? hCall) id (hOwner ▸ hID)
  · exact hk (h.distinct hd hCall hID' (hOwner ▸ hID))
  · exact ⟨hCredential hHas, hOwner.trans hOwns⟩

theorem Owned.create {id : Text} (hBefore : c.phase.owner = none) (hAfter : phase.owner = some id)
    (hFresh : id ∉ nodes) :
    Owned (calls.set i { c with phase := phase }) (nodes ++ [id]) credentials := by
  refine h.set phase hCall (fun _ => mem_append_left _) (fun id' hID => ?_) (fun _ hd hID hID' => ?_)
    fun _ _ hOwns => absurd (hBefore.symm.trans hOwns) (by simp)
  · obtain rfl := Option.some.inj (hAfter.symm.trans hID)
    exact mem_append_right _ (mem_singleton_self id)
  -- an older owner's node is stored, the new one is not
  obtain rfl := Option.some.inj (hAfter.symm.trans hID)
  exact hFresh (h.stored _ (mem_of_getElem? hd) id hID')

theorem Owned.credential {id : Text} (hBefore : c.phase.owner = some id) (hAfter : phase.owner = some id)
    (hHas : phase.hasCredential = true) :
    Owned (calls.set i { c with phase := phase }) nodes (credentials ++ [id]) := by
  have hKept := h.kept phase hCall (hAfter.trans hBefore.symm) fun _ => hHas
  refine { hKept with held := fun id' hID => ?_ }
  rcases mem_append.mp hID with hID | hID
  · exact hKept.held id' hID
  · rw [mem_singleton.mp hID]
    exact ⟨i, _, getElem?_set_some hCall, hHas, hAfter⟩

theorem Owned.credential_fresh {id : Text} (hOwner : c.phase.owner = some id) (hHas : c.phase.hasCredential = false) :
    id ∉ credentials := by
  intro hMem
  obtain ⟨j, d, hd, hHas', hOwns⟩ := h.held id hMem
  obtain rfl := h.distinct hd hCall hOwns hOwner
  obtain rfl := Option.some.inj (hd.symm.trans hCall)
  rw [hHas] at hHas'
  cases hHas'

end

def State.count (s : State) (f : Phase → Bool) : Nat := s.calls.countP fun c => f c.phase

def Phase.hasNode (phase : Phase) : Bool := phase.owner.isSome

def State.tokenUsed (s : State) : Bool := s.token.any fun t => t.usedAt.isSome

structure Booked (s : State) : Prop where
  owned : Owned s.calls (s.nodes.map NodeRow.id) (s.credentials.map CredentialRow.nodeID)
  nodes : s.nodes.length = s.count Phase.hasNode
  credentials : s.credentials.length = s.count Phase.hasCredential
  token : s.count Phase.hasToken ≤ s.tokenUsed.toNat

theorem count_goto (f : Phase → Bool) (hCall : s.calls[i]? = some c) :
    (s.goto i c phase).count f + (f c.phase).toNat = s.count f + (f phase).toNat := by
  obtain ⟨hi, rfl⟩ := List.getElem?_eq_some_iff.mp hCall
  have hPos : f s.calls[i].phase = true → 0 < s.calls.countP fun c => f c.phase :=
    fun hTrue => countP_pos_iff.mpr ⟨_, getElem_mem hi, hTrue⟩
  simp only [State.count, State.goto, countP_set hi]
  cases hBefore : f s.calls[i].phase with
  | false => cases f phase <;> simp
  | true =>
    have := hPos hBefore
    cases f phase <;> simp <;> omega

theorem Booked.moved {s' : State} (h : Booked s) (hCall : s.calls[i]? = some c)
    (hCalls : s'.calls = (s.goto i c phase).calls)
    (hOwned : Owned s'.calls (s'.nodes.map NodeRow.id) (s'.credentials.map CredentialRow.nodeID))
    (hNodes : s'.nodes.length + c.phase.hasNode.toNat = s.nodes.length + phase.hasNode.toNat)
    (hCreds : s'.credentials.length + c.phase.hasCredential.toNat = s.credentials.length + phase.hasCredential.toNat)
    (hToken : s.tokenUsed.toNat + phase.hasToken.toNat ≤ s'.tokenUsed.toNat + c.phase.hasToken.toNat) : Booked s' := by
  have hCount f : s'.count f + (f c.phase).toNat = s.count f + (f phase).toNat := by
    rw [← count_goto phase f hCall, State.count, hCalls]
    rfl
  refine ⟨hOwned, ?_, ?_, ?_⟩
  · have := hCount Phase.hasNode
    have := h.nodes
    omega
  · have := hCount Phase.hasCredential
    have := h.credentials
    omega
  have := hCount Phase.hasToken
  have := h.token
  omega

theorem Booked.goto (h : Booked s) (hCall : s.calls[i]? = some c) (hOwner : phase.owner = c.phase.owner)
    (hCredential : phase.hasCredential = c.phase.hasCredential) (hToken : phase.hasToken = c.phase.hasToken) :
    Booked (s.goto i c phase) :=
  h.moved phase hCall rfl (h.owned.kept phase hCall hOwner fun hHas => hCredential.trans hHas)
    (by rw [Phase.hasNode, Phase.hasNode, hOwner]; rfl) (by rw [hCredential]; rfl)
    (by rw [hToken]; exact Nat.le_refl _)

theorem upsert_fresh {rows : List CredentialRow} {row : CredentialRow} (h : row.nodeID ∉ rows.map CredentialRow.nodeID) :
    upsert rows row = rows ++ [row] := by
  rw [upsert, if_neg]
  intro hAny
  obtain ⟨old, hOld, hID⟩ := any_eq_true.mp hAny
  exact h (mem_map.mpr ⟨old, hOld, of_decide_eq_true hID⟩)

theorem Booked.acts {s' : State} (h : Booked s) (hCall : s.calls[i]? = some c) (hActs : Acts s i c s') : Booked s' := by
  obtain ⟨request, phase⟩ := c
  cases hActs with
  | idle => exact h
  | early hBefore hAfter =>
    obtain ⟨hCredential, hToken, -⟩ := Phase.rowless hBefore
    obtain ⟨hCredential', hToken', -⟩ := Phase.rowless hAfter
    exact h.goto _ hCall (hAfter.trans hBefore.symm) (hCredential'.trans hCredential.symm) (hToken'.trans hToken.symm)
  | @create p hPhase hFresh =>
    cases hPhase
    refine h.moved (.created p) hCall rfl ?_ length_append rfl (Nat.le_refl _)
    rw [map_append]
    exact h.owned.create (.created p) hCall rfl rfl hFresh
  | @credential p hPhase =>
    cases hPhase
    have hFresh : (credentialRow request p).nodeID ∉ _ := h.owned.credential_fresh hCall rfl rfl
    rw [upsert_fresh hFresh]
    refine h.moved (.credentialed p) hCall rfl ?_ rfl length_append (Nat.le_refl _)
    rw [map_append]
    exact h.owned.credential (.credentialed p) hCall rfl rfl rfl
  | @use p t hPhase hToken hUsable =>
    cases hPhase
    have hNone : t.usedAt.isNone = true := (Bool.and_eq_true_iff.mp hUsable).1
    have hUnused : s.tokenUsed = false := by simpa [State.tokenUsed, hToken] using hNone
    refine h.moved (.consumed p) hCall rfl (h.owned.kept (.consumed p) hCall rfl fun _ => rfl) rfl rfl ?_
    rw [hUnused]
    exact Nat.le_refl _
  | @certify p hPhase =>
    cases hPhase
    have hRows : ((s.nodes.map fun row => if row.id = p.cert.nodeID then
        { row with certificateExpiresAt := some (dbTime p.cert.expiresAt) } else row).map NodeRow.id) =
        s.nodes.map NodeRow.id := by
      rw [map_map]
      refine map_congr_left fun row _ => ?_
      simp only [Function.comp_apply]
      split <;> rfl
    have hGoto := h.goto (.enrolled p) hCall rfl rfl rfl
    refine { hGoto with owned := ?_, nodes := ?_ }
    · rw [hRows]
      exact hGoto.owned
    · exact length_map _ |>.trans hGoto.nodes
  | @orphan e p hOwner hCredential hToken => exact h.goto _ hCall hOwner.symm hCredential hToken

theorem firstPhase_owner (ca : Authority) (r : EnrollRequest) : (firstPhase ca r).owner = none := by
  unfold firstPhase
  split
  · rfl
  · split <;> rfl

theorem getElem?_concat_cases {j : Nat} {d d' : Call} (h : (calls ++ [d'])[j]? = some d) : calls[j]? = some d ∨ d = d' := by
  rcases Nat.lt_or_ge j calls.length with hLt | hGe
  · exact .inl (by rwa [getElem?_append_left hLt] at h)
  · rw [getElem?_append_right hGe] at h
    exact .inr (mem_singleton.mp (mem_of_getElem? h))

theorem Owned.start (h : Owned calls nodes credentials) (hOwner : c.phase.owner = none) :
    Owned (calls ++ [c]) nodes credentials where
  stored d hd id hID := by
    rcases mem_append.mp hd with hd | hd
    · exact h.stored d hd id hID
    · rw [mem_singleton.mp hd, hOwner] at hID
      cases hID
  distinct := by
    intro j k d d' id hd hd' hID hID'
    rcases getElem?_concat_cases hd with hBefore | rfl
    · rcases getElem?_concat_cases hd' with hBefore' | rfl
      · exact h.distinct hBefore hBefore' hID hID'
      · rw [hOwner] at hID'
        cases hID'
    · rw [hOwner] at hID
      cases hID
  held id hID := by
    obtain ⟨j, d, hd, hHas⟩ := h.held id hID
    exact ⟨j, d, by rw [getElem?_append_left (List.getElem?_eq_some_iff.mp hd).1]; exact hd, hHas⟩

theorem next_answer (hCall : s.calls[i]? = some c) : s.next ca (.answer i a) = s.act i c a := by
  simp [State.next, hCall]

theorem next_answer_none (hCall : s.calls[i]? = none) : s.next ca (.answer i a) = s := by
  simp [State.next, hCall]

theorem Booked.next (h : Booked s) (st : Step) : Booked (s.next ca st) := by
  cases st with
  | start r =>
    have hOwner := firstPhase_owner ca r
    obtain ⟨hCredential, hToken, -⟩ := Phase.rowless hOwner
    refine ⟨h.owned.start hOwner, ?_, ?_, ?_⟩
    · simpa [State.next, State.count, Phase.hasNode, hOwner] using h.nodes
    · simpa [State.next, State.count, hCredential] using h.credentials
    · simpa [State.next, State.count, State.tokenUsed, hToken] using h.token
  | answer i a =>
    cases hCall : s.calls[i]? with
    | none => rwa [next_answer_none hCall]
    | some c =>
      rw [next_answer hCall]
      exact h.acts hCall (act_cases s i c a)

theorem booked_of_runs {guard : State → Step → Prop} {s₀ : State} (hInit : (system ca).init s₀)
    (hRun : (system ca).Runs guard s₀ s) : Booked s := by
  obtain ⟨hNodes, hCreds, hCalls⟩ := hInit
  refine hRun.preserves (fun _ st hs _ _ => hs.next st) ⟨⟨?_, ?_, ?_⟩, ?_, ?_, ?_⟩
  · simp [hCalls]
  · simp [hCalls]
  · simp [hCreds]
  · simp [hNodes, State.count, hCalls]
  · simp [hCreds, State.count, hCalls]
  · simp [State.count, hCalls]

def Goes (s : State) : Phase → Answer → Prop
  | .created _, .statement failure => failure = none
  | .credentialed p, .statement failure => failure = none ∧ ∃ t ∈ s.token, t.usable p.now = true
  | .consumed _, .statement failure => failure = none
  | _, _ => True

/-- Once a call has written its node's row, its later statements go through. -/
def Lands (s : State) : Step → Prop
  | .start _ => True
  | .answer i a => ∀ c ∈ s.calls[i]?, Goes s c.phase a

theorem act_of_not_goes (h : ¬ Goes s c.phase a) : ∃ e p, s.act i c a = s.goto i c (.orphaned e p) := by
  obtain ⟨request, phase⟩ := c
  dsimp only [Goes] at h
  split at h
  · next p failure =>
    obtain ⟨text, rfl⟩ := Option.ne_none_iff_exists'.mp h
    exact ⟨.credential text, p, rfl⟩
  · next p failure =>
    refine ⟨.consumed, p, ?_⟩
    cases failure with
    | some text => rfl
    | none =>
      cases hToken : s.token with
      | none => simp [State.act, hToken]
      | some t =>
        have hUnusable : t.usable p.now = false := by simpa [hToken] using h
        simp [State.act, hToken, hUnusable]
  · next p failure =>
    obtain ⟨text, rfl⟩ := Option.ne_none_iff_exists'.mp h
    exact ⟨.certificate text, p, rfl⟩
  · exact absurd trivial h

theorem act_of_goes (h : Goes s c.phase a) {d : Call} (hd : d ∈ (s.act i c a).calls) (hOrphaned : d.phase.isOrphaned = true) :
    d ∈ s.calls := by
  have hSet : ∀ phase : Phase, phase.isOrphaned = false → d ∈ s.calls.set i { c with phase := phase } → d ∈ s.calls := by
    intro phase hPhase hMem
    rcases mem_or_eq_of_mem_set hMem with hMem | rfl
    · exact hMem
    · rw [hPhase] at hOrphaned
      cases hOrphaned
  obtain ⟨request, phase⟩ := c
  dsimp only [State.act] at hd
  split at hd
  · exact hSet _ (Phase.rowless (lookupPhase_owner _ _)).2.2 hd
  · exact hSet _ rfl hd
  · exact hSet _ rfl hd
  · exact hSet _ rfl hd
  · split at hd
    · exact hSet _ rfl hd
    · exact hSet _ rfl hd
  · cases h
  · exact hSet _ rfl hd
  · cases h.1
  · obtain ⟨-, t, hToken, hUsable⟩ := h
    rw [Option.mem_def] at hToken
    simp only [hToken, hUsable] at hd
    exact hSet _ rfl hd
  · cases h
  · exact hSet _ rfl hd
  · exact hd

theorem act_calls (s : State) (i : Nat) (c : Call) (a : Answer) :
    (s.act i c a).calls = s.calls ∨ ∃ phase, (s.act i c a).calls = s.calls.set i { c with phase := phase } := by
  have hActs := act_cases s i c a
  generalize s.act i c a = s' at hActs ⊢
  cases hActs with
  | idle => exact .inl rfl
  | early | create | credential | use | certify | orphan => exact .inr ⟨_, rfl⟩

def State.Orphans (s : State) : Prop := ∃ (i : Nat) (c : Call), s.calls[i]? = some c ∧ c.phase.isOrphaned = true

theorem act_orphaned (h : c.phase.isOrphaned = true) : s.act i c a = s := by
  cases hPhase : c.phase with
  | orphaned e p => simp [State.act, hPhase]
  | begun | checked | issued | created | credentialed | consumed | enrolled | rejected =>
    simp [hPhase, Phase.isOrphaned] at h

theorem State.Orphans.next (h : s.Orphans) (st : Step) : (s.next ca st).Orphans := by
  obtain ⟨j, d, hd, hOrphaned⟩ := h
  cases st with
  | start r =>
    refine ⟨j, d, ?_, hOrphaned⟩
    exact (getElem?_append_left (List.getElem?_eq_some_iff.mp hd).1).trans hd
  | answer i a =>
    cases hCall : s.calls[i]? with
    | none =>
      rw [next_answer_none hCall]
      exact ⟨j, d, hd, hOrphaned⟩
    | some c =>
      rw [next_answer hCall]
      by_cases hj : i = j
      · subst hj
        obtain rfl := Option.some.inj (hCall.symm.trans hd)
        rw [act_orphaned hOrphaned]
        exact ⟨i, c, hd, hOrphaned⟩
      refine ⟨j, d, ?_, hOrphaned⟩
      rcases act_calls s i c a with hSame | ⟨phase, hSet⟩
      · rwa [hSame]
      · rwa [hSet, getElem?_set_ne hj]

theorem lands_or_orphans {s₀ : State} (hRun : (system ca).Runs (fun _ _ => True) s₀ s) :
    (system ca).Runs Lands s₀ s ∨ s.Orphans := by
  induction hRun with
  | refl => exact .inl .refl
  | @step t st hRun hOn _ ih =>
    rcases ih with ih | hOrphans
    · by_cases hLands : Lands t st
      · exact .inl (.step st ih hOn hLands)
      right
      cases st with
      | start r => exact absurd trivial hLands
      | answer i a =>
        obtain ⟨c, hRest⟩ := not_forall.mp hLands
        obtain ⟨hCall, hNot⟩ := Classical.not_imp.mp hRest
        obtain ⟨e, p, hAct⟩ := act_of_not_goes hNot
        refine ⟨i, { c with phase := .orphaned e p }, ?_, rfl⟩
        change (t.next ca (.answer i a)).calls[i]? = _
        rw [next_answer hCall, hAct]
        exact getElem?_set_some hCall
    · exact .inr (hOrphans.next st)

theorem not_orphans_of_lands {s₀ : State} (hInit : (system ca).init s₀) (hRun : (system ca).Runs Lands s₀ s) :
    ∀ c ∈ s.calls, c.phase.isOrphaned = false := by
  refine hRun.preserves (I := fun s => ∀ c ∈ s.calls, c.phase.isOrphaned = false) ?_ (by simp [hInit.2.2])
  intro t st hNone _ hLands d hd
  cases st with
  | start r =>
    rcases mem_append.mp hd with hd | hd
    · exact hNone d hd
    · rw [mem_singleton.mp hd]
      exact (Phase.rowless (firstPhase_owner ca r)).2.2
  | answer i a =>
    change d ∈ (t.next ca (.answer i a)).calls at hd
    cases hCall : t.calls[i]? with
    | none =>
      rw [next_answer_none hCall] at hd
      exact hNone d hd
    | some c =>
      rw [next_answer hCall] at hd
      by_contra hOrphaned
      exact hOrphaned (hNone d (act_of_goes (hLands c hCall) hd (by simpa using hOrphaned)))

def Phase.isEnrolled : Phase → Bool
  | .enrolled _ => true
  | _ => false

def Phase.isOver : Phase → Bool
  | .enrolled _ | .rejected _ | .orphaned _ _ => true
  | .begun | .checked _ | .issued _ | .created _ | .credentialed _ | .consumed _ => false

def State.successes (s : State) : Nat := s.count Phase.isEnrolled

theorem Phase.over_cases {phase : Phase} (hOver : phase.isOver = true) (hNot : phase.isOrphaned = false) :
    phase.hasNode = phase.isEnrolled ∧ phase.hasCredential = phase.isEnrolled := by
  cases phase with
  | enrolled | rejected => exact ⟨rfl, rfl⟩
  | orphaned e p => cases hNot
  | begun | checked | issued | created | credentialed | consumed => cases hOver

theorem successes_le_one (h : Booked s) : s.successes ≤ 1 := by
  have hToken : s.successes ≤ s.count Phase.hasToken := by
    refine countP_mono_left fun c _ hEnrolled => ?_
    cases hPhase : c.phase with
    | enrolled p => rfl
    | _ => simp [hPhase, Phase.isEnrolled] at hEnrolled
  have hOne : s.tokenUsed.toNat ≤ 1 := Bool.toNat_le _
  exact Nat.le_trans hToken (Nat.le_trans h.token hOne)

theorem Phase.enrolled_or_orphaned (phase : Phase) :
    ((if phase.isEnrolled then 1 else 0) + if phase.isOrphaned then 1 else 0) ≤ if phase.hasNode then 1 else 0 := by
  cases phase <;> simp [isEnrolled, isOrphaned, hasNode, owner]

theorem successes_add_le (s : State) : s.successes + s.count Phase.isOrphaned ≤ s.count Phase.hasNode := by
  unfold State.successes State.count
  induction s.calls with
  | nil => exact Nat.le_refl 0
  | cons c calls ih =>
    have hHead := c.phase.enrolled_or_orphaned
    simp only [countP_cons]
    omega

structure State.Matches (s : State) : Prop where
  nodes : s.nodes.length = s.successes
  credentials : s.credentials.length = s.successes
  once : s.successes ≤ 1

/-- When all calls have returned, the rows match the successful responses exactly when every step of the run landed. -/
theorem enroll_rows_iff {s₀ : State} (hInit : (system ca).init s₀) (hRun : (system ca).Runs (fun _ _ => True) s₀ s)
    (hOver : ∀ c ∈ s.calls, c.phase.isOver = true) : s.Matches ↔ (system ca).Runs Lands s₀ s := by
  have hBooked := booked_of_runs hInit hRun
  constructor
  · intro hMatch
    refine (lands_or_orphans hRun).resolve_right ?_
    rintro ⟨i, c, hCall, hOrphaned⟩
    have hLe := successes_add_le s
    have hPos : 0 < s.count Phase.isOrphaned := countP_pos_iff.mpr ⟨c, mem_of_getElem? hCall, hOrphaned⟩
    rw [← hBooked.nodes, hMatch.nodes] at hLe
    omega
  intro hLands
  have hNone := not_orphans_of_lands hInit hLands
  refine ⟨?_, ?_, successes_le_one hBooked⟩
  · rw [hBooked.nodes]
    exact countP_congr fun c hc => by rw [(Phase.over_cases (hOver c hc) (hNone c hc)).1]
  · rw [hBooked.credentials]
    exact countP_congr fun c hc => by rw [(Phase.over_cases (hOver c hc) (hNone c hc)).2]

instance (ca : Authority) (s : State) (st : Step) : Decidable ((system ca).enabled s st) :=
  inferInstanceAs (Decidable (s.enabled st = true))

def openAuthority : Authority := ⟨[], fun _ => .ok ()⟩

def fresh : State := ⟨some ⟨600000, none, none⟩, [], [], []⟩

def request : EnrollRequest := ⟨[], [], []⟩

def readToken (i : Nat) : Step := .answer i (.token (.ok 1))

def issue (i : Nat) (nodeID : Text) : Step := .answer i (.certificate (.ok ⟨nodeID, [], 0⟩))

def write (i : Nat) : Step := .answer i (.statement none)

def inTurn : List Step :=
  [.start request, .start request, readToken 0, issue 0 ['a'], write 0, write 0, write 0, write 0, readToken 1]

theorem enroll_rows_iff_inTurn : ((system openAuthority).exec fresh inTurn).Matches ↔
      (system openAuthority).Runs Lands fresh ((system openAuthority).exec fresh inTurn) :=
  enroll_rows_iff ⟨rfl, rfl, rfl⟩ (.of_allowed (by decide +kernel)) (by decide +kernel)

def together : List Step :=
  [.start request, .start request, readToken 0, readToken 1, issue 0 ['a'], issue 1 ['b'], write 0, write 1, write 0,
    write 1, write 0, write 1, write 0]

theorem enroll_leaves_rows :
    ∃ s, (system openAuthority).init fresh ∧ (system openAuthority).Runs (fun _ _ => True) fresh s ∧
      (∀ c ∈ s.calls, c.phase.isOver = true) ∧ s.successes = 1 ∧ s.nodes.length = 2 ∧ s.credentials.length = 2 :=
  ⟨(system openAuthority).exec fresh together, ⟨rfl, rfl, rfl⟩, .of_allowed (by decide +kernel), by decide +kernel,
    by decide +kernel, by decide +kernel, by decide +kernel⟩

end LocalModelWorks.Server.Enroll
