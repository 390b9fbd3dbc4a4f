import Mathlib.Data.List.Forall2
import Moor.Circuit.Onion
import Moor.Lib.Pipeline
import Moor.Lib.Run

/-!
# A circuit as a network

The client and the relays of a circuit, with the cells that are on their way between them. Every
link delivers in order; apart from that the parties move in any order. The two directions of a
circuit share no state: each is a pipeline of the relays' layers.
-/

namespace Moor

open Codec Pipeline Run List Layer Stage Function

/-- A relay's layer in one direction, with the cells on their way to it and those it handled. -/
abbrev RelayStage := Stage Layer Payload Payload

/-- The state of a circuit with everything that is under way, and the payloads that were sent and
received so far. -/
structure Network where
  client : List Hop
  /-- The forward layers of the relays, from the first relay to the last. -/
  forward : List RelayStage
  /-- The backward layers of the relays, from the last relay to the first. -/
  backward : List RelayStage
  /-- The cells on their way from the first relay to the client. -/
  inbox : List Payload
  sent : List Payload
  originated : List Payload
  received : List Payload

/-- What can happen next. Relays are counted in the direction of the cells: from the first relay
for a forward cell, from the last one for a backward cell. -/
inductive Network.Action where
  | send (relayCmd : UInt8) (streamId : UInt16) (data : Bytes)
  | forward (relay : ℕ)
  | originate (relay : ℕ) (relayCmd : UInt8) (streamId : UInt16) (data : Bytes)
  | backward (relay : ℕ)
  | receive

namespace Network

/-- A circuit that has just been built: the relays have the layers that the client has. -/
def start (hops : List Hop) : Network where
  client := hops
  forward := hops.map fun hop => Stage.idle hop.forward
  backward := (hops.map fun hop => Stage.idle hop.backward).reverse
  inbox := []
  sent := []
  originated := []
  received := []

/-- One step of the network. A party without nonces gives the circuit up, and a cell that the last
relay does not recognise is dropped. -/
def step (C : Crypto) (net : Network) : Action → Option Network
  | .send relayCmd streamId data =>
    let payload := cellRelay relayCmd streamId data
    match circuitEncryptForward C net.client payload with
    | (_, none) => none
    | (client, some cell) => some { net with
        client := client
        forward := (enqueue [cell] net.forward).1
        sent := net.sent ++ [(setLastDigest C (net.client.map Hop.forward) payload).2] }
  | .forward relay =>
    match advance (relayHandleForward C) relay net.forward with
    | none => none
    | some (stages, _) => some { net with forward := stages }
  | .originate relay relayCmd streamId data =>
    let payload := cellRelay relayCmd streamId data
    match net.backward[relay]?, emit (relayOriginate C payload) relay net.backward with
    | some origin, some (stages, out) => some { net with
        backward := stages
        inbox := net.inbox ++ out
        originated := net.originated ++ [(relaySetDigest C payload origin.state.digest).1] }
    | _, _ => none
  | .backward relay =>
    match advance (relayHandleBackward C) relay net.backward with
    | none => none
    | some (stages, out) => some { net with backward := stages, inbox := net.inbox ++ out }
  | .receive =>
    match net.inbox with
    | [] => none
    | cell :: inbox =>
      let (client, out) := circuitDecryptBackward C net.client cell
      some { net with client := client, inbox := inbox, received := net.received ++ out.toList }

/-- No relay before the last finds its own digest on the payload that it forwards. -/
def NoStray (C : Crypto) (layers : List Layer) (payload : Payload) : Prop :=
  ∀ before l after, layers = before ++ l :: after → after ≠ [] →
    recognises C l.digest (wrapLayers C after (setLastDigest C layers payload).2) = false

/-- No hop of the circuit has used up its backward nonces when the last relay sends another cell. -/
def NoncesLast (hops : List Hop) (net : Network) : Prop :=
  ∀ hop ∈ hops, hop.backward.nonce.toNat + net.originated.length < uint64Max.toNat
  deriving Decidable

/-- The steps of a circuit in use: cells come from the client and from the last relay, digests do
not collide, and nonces are not used up. A client without forward nonces does not send. -/
def Regular (C : Crypto) (hops : List Hop) (net : Network) : Action → Prop
  | .send relayCmd streamId data =>
    NoStray C (net.client.map Hop.forward) (cellRelay relayCmd streamId data)
  | .originate relay _ _ _ => relay = 0 ∧ NoncesLast hops net
  | _ => True

/-! ### One cell through a circuit with nothing under way -/

section

variable {C : Crypto}

/-- Relays with nothing under way, of which the last one alone has handled cells. -/
def settled (layers : List Layer) (last : Layer) (handled : List Payload) : List RelayStage :=
  layers.map Stage.idle ++ [⟨last, [], handled⟩]

variable {layers : List Layer} {last : Layer} {payload : Payload} {digest : Field 32}

/-- A cell goes through to the last relay, which handles it. -/
theorem flush_settled (hlayers : ∀ l ∈ layers, l.nonce ≠ uint64Max)
    (hlast : last.nonce ≠ uint64Max)
    (hstray : ∀ before l after, layers = before ++ l :: after →
      recognises C l.digest (wrapLayers C (after ++ [last]) payload) = false)
    (hzero : (relayUnpack payload).recognized = 0)
    (hdig : relayCheckDigest C payload last.digest = some digest) (handled : List Payload) :
    flush (relayHandleForward C) [wrapLayers C (layers ++ [last]) payload]
        (settled layers last handled) =
      (settled (layers.map bump) (last.next digest) (handled ++ [payload]), []) := by
  induction layers with
  | nil =>
    simp [settled, flush, feed, relayHandleForward_of_recognises hlast hzero hdig]
  | cons l layers ih =>
    have hl : l.nonce ≠ uint64Max := hlayers l mem_cons_self
    have hpass := relayHandleForward_of_not_recognises hl (hstray [] l layers rfl)
    have hrest := ih (fun l' hl' => hlayers l' (mem_cons_of_mem l hl'))
      (fun before l' after h => hstray (l :: before) l' after (by rw [h, cons_append]))
    simp only [settled, map_cons, cons_append, wrapLayers_cons, flush, idle,
      nil_append, feed, hpass] at hrest ⊢
    rw [hrest]

/-- A cell towards the client gets the layers of the relays that it passes. -/
theorem flush_idle (h : ∀ l ∈ layers, l.nonce ≠ uint64Max) (cell : Payload) :
    flush (relayHandleBackward C) [cell] (layers.map Stage.idle) =
      ((layers.map bump).map Stage.idle, [wrapLayers C layers.reverse cell]) := by
  induction layers generalizing cell with
  | nil => rfl
  | cons l layers ih =>
    have hl : l.nonce ≠ uint64Max := h l mem_cons_self
    have hrest := ih (fun l' hl' => h l' (mem_cons_of_mem l hl'))
    have hpass : relayHandleBackward C l cell = (l.bump, .inl (l.apply C cell)) := by
      simp [relayHandleBackward, circuitRelayEncrypt, crypt_of_ne hl]
    simp only [map_cons, flush, idle, nil_append, feed, hpass] at hrest ⊢
    rw [hrest]
    simp [wrapLayers, foldr_append]

/-- The client receives cells one after the other. -/
def receiveAll (C : Crypto) : List Layer → List Payload → List Layer × List Payload
  | layers, [] => (layers, [])
  | layers, cell :: cells =>
    let (layers, out) := receiveLayers C layers cell
    let (layers, outs) := receiveAll C layers cells
    (layers, out.toList ++ outs)

theorem receiveAll_append (layers : List Layer) (xs ys : List Payload) :
    receiveAll C layers (xs ++ ys) =
      ((receiveAll C (receiveAll C layers xs).1 ys).1,
        (receiveAll C layers xs).2 ++ (receiveAll C (receiveAll C layers xs).1 ys).2) := by
  induction xs generalizing layers with
  | nil => rfl
  | cons x xs ih => simp [receiveAll, ih]

/-- A cell from the last relay goes through to the client, which recovers it. -/
theorem receiveAll_enqueue {client : List Layer} {rest : List RelayStage}
    {inbox pending : List Payload} (hlayers : ∀ l ∈ layers, l.nonce ≠ uint64Max)
    (hlast : last.nonce ≠ uint64Max)
    (hdig : relayCheckDigest C payload last.digest = some digest)
    (hrest : (flush (relayHandleBackward C) [] rest).1 = layers.reverse.map Stage.idle)
    (hrecv : receiveAll C client (inbox ++ (flush (relayHandleBackward C) [] rest).2)
      = (layers ++ [last], pending)) :
    receiveAll C client (inbox ++ (enqueue [last.apply C payload] rest).2 ++
        (flush (relayHandleBackward C) [] (enqueue [last.apply C payload] rest).1).2)
      = (layers.map bump ++ [last.next digest], pending ++ [payload]) ∧
    (flush (relayHandleBackward C) [] (enqueue [last.apply C payload] rest).1).1
      = (layers.map bump).reverse.map Stage.idle := by
  have hreverse : ∀ l ∈ layers.reverse, l.nonce ≠ uint64Max := fun l hl =>
    hlayers l (mem_reverse.mp hl)
  have hpass := @flush_idle C _ hreverse (last.apply C payload)
  obtain ⟨hstages, hout⟩ := @flush_enqueue_singleton _ _ _ (relayHandleBackward C)
    (last.apply C payload) rest
  rw [hrest, hpass] at hstages hout
  have hwrap : wrapLayers C layers.reverse.reverse (last.apply C payload)
      = wrapLayers C (layers ++ [last]) payload := by
    simp [wrapLayers]
  refine ⟨?_, by simp [hstages]⟩
  rw [append_assoc, hout, hwrap, ← append_assoc, receiveAll_append, hrecv]
  simp [receiveAll, receiveLayers_concat hlayers hlast hdig]

end

/-! ### The invariants -/

section

variable {C : Crypto} {hops : List Hop} {net net' : Network}

/-- When all forward cells under way have gone through, the relays have the client's forward
layers, and the last relay has handled what the client sent. -/
def ForwardSettles (C : Crypto) (hops : List Hop) (net : Network) : Prop :=
  ∃ layers last, net.client.map Hop.forward = layers ++ [last] ∧
    layers.map digest = (hops.map fun hop => hop.forward.digest).dropLast ∧
    flush (relayHandleForward C) [] net.forward = (settled layers last net.sent, [])

/-- When all backward cells under way have gone through and the client has received them, it has
the relays' backward layers, and has recovered what the last relay sent. Every cell takes one nonce
of each hop. -/
def BackwardSettles (C : Crypto) (hops : List Hop) (net : Network) : Prop :=
  ∃ layers last pending,
    receiveAll C (net.client.map Hop.backward)
        (net.inbox ++ (flush (relayHandleBackward C) [] net.backward).2) =
      (layers ++ [last], pending) ∧
    (flush (relayHandleBackward C) [] net.backward).1
      = (last :: layers.reverse).map Stage.idle ∧
    net.received ++ pending = net.originated ∧ (layers ++ [last]).map nonce =
      hops.map fun hop => hop.backward.nonce + UInt64.ofNat net.originated.length

/-- Nothing is ever on its way to the last relay from behind. -/
def LastQueueEmpty (net : Network) : Prop := ∀ a ∈ net.backward.head?, a.queue = []

variable {relayCmd : UInt8} {streamId : UInt16} {data : Bytes} {a : Action}

/-- What the client sends is under way, in all its layers. -/
theorem ForwardSettles.send (h : ForwardSettles C hops net)
    (hstray : NoStray C (net.client.map Hop.forward) (cellRelay relayCmd streamId data))
    (hstep : step C net (.send relayCmd streamId data) = some net') :
    ForwardSettles C hops net' := by
  obtain ⟨layers, last, hclient, hdigests, hflush⟩ := h
  obtain ⟨hfwd, -⟩ :=
    circuitEncryptForward_layers C net.client (cellRelay relayCmd streamId data)
  rw [step] at hstep
  rcases hsend : circuitEncryptForward C net.client (cellRelay relayCmd streamId data)
    with ⟨client, _ | cell⟩
  · simp [hsend] at hstep
  simp only [hsend, Option.some_inj] at hstep
  subst hstep
  have hcell : (sendLayers C (net.client.map Hop.forward)
      (cellRelay relayCmd streamId data)).2 = some cell := congrArg Prod.snd hsend
  rw [hclient] at hcell hstray hfwd
  obtain ⟨hnew, rfl, hne, hlast⟩ := sendLayers_concat (Prod.ext rfl hcell)
  have hcheck := relayCheckDigest_relaySetDigest C (cellRelay relayCmd streamId data) last.digest
  have hzero : (relayUnpack (relaySetDigest C (cellRelay relayCmd streamId data)
      last.digest).1).recognized = 0 := by
    simp [relaySetDigest, relayUnpack_putDigest]
  have hthrough := flush_settled hne hlast (fun before l after hsplit => by
    have hno := hstray before l (after ++ [last]) (by rw [hsplit]; simp) (by simp)
    rwa [setLastDigest_concat] at hno) hzero hcheck net.sent
  refine ⟨_, _, (congrArg _ (congrArg Prod.fst hsend.symm)).trans (hfwd.trans hnew), ?_, ?_⟩
  · rw [← hdigests, map_map]
    rfl
  obtain ⟨hstages, hout⟩ := @flush_enqueue_singleton _ _ _ (relayHandleForward C)
    (wrapLayers C (layers ++ [last])
      (relaySetDigest C (cellRelay relayCmd streamId data) last.digest).1) net.forward
  rw [hflush, hthrough] at hstages hout
  rw [hclient, setLastDigest_concat]
  exact Prod.ext hstages (append_eq_nil_iff.mp hout).2

/-- The forward direction settles after every step. -/
theorem ForwardSettles.step (h : ForwardSettles C hops net) (ha : Regular C hops net a)
    (hstep : step C net a = some net') : ForwardSettles C hops net' := by
  cases a with
  | send relayCmd streamId data => exact h.send ha hstep
  | forward relay =>
    obtain ⟨layers, last, hclient, hdigests, hflush⟩ := h
    rw [Network.step] at hstep
    rcases hadv : advance (relayHandleForward C) relay net.forward with _ | ⟨stages, out⟩
    · simp [hadv] at hstep
    simp only [hadv, Option.some_inj] at hstep
    subst hstep
    rw [flush_advance [] hadv, Prod.mk.injEq] at hflush
    exact ⟨layers, last, hclient, hdigests, Prod.ext hflush.1 (append_eq_nil_iff.mp hflush.2).2⟩
  | originate relay relayCmd streamId data =>
    rw [Network.step] at hstep
    split at hstep
    · cases hstep
      exact h
    · cases hstep
  | backward relay =>
    rw [Network.step] at hstep
    split at hstep
    · cases hstep
    · cases hstep
      exact h
  | receive =>
    rw [Network.step] at hstep
    split at hstep
    · cases hstep
    rename_i cell inbox _
    obtain ⟨layers, last, hclient, hdigests, hflush⟩ := h
    cases hstep
    refine ⟨layers, last, ?_, hdigests, hflush⟩
    rw [← hclient]
    exact (circuitDecryptBackward_layers C net.client cell).2

theorem NoncesLast.ne_max {layers : List Layer} (h : NoncesLast hops net)
    (hnonces : layers.map nonce =
      hops.map fun hop => hop.backward.nonce + UInt64.ofNat net.originated.length) :
    ∀ l ∈ layers, l.nonce ≠ uint64Max := by
  intro l hl hmax
  obtain ⟨hop, hhop, hnonce⟩ := mem_map.mp (hnonces ▸ mem_map_of_mem hl)
  have hlt := h hop hhop
  have hnat := congrArg UInt64.toNat (hnonce.trans hmax)
  rw [UInt64.toNat_add, UInt64.toNat_ofNat'] at hnat
  have := uint64Max.toNat_lt
  omega

/-- What the last relay sends is under way, and the client will recover it. -/
theorem BackwardSettles.originate (h : BackwardSettles C hops net) (hq : LastQueueEmpty net)
    (hlast : NoncesLast hops net)
    (hstep : step C net (.originate 0 relayCmd streamId data) = some net') :
    BackwardSettles C hops net' ∧ LastQueueEmpty net' := by
  obtain ⟨layers, last, pending, hrecv, hstages, horiginated, hnonces⟩ := h
  rcases hback : net.backward with _ | ⟨⟨state, queue, kept⟩, rest⟩
  · simp [Network.step, hback] at hstep
  obtain rfl : queue = [] := hq ⟨state, queue, kept⟩ (by simp [hback])
  rw [hback] at hstages hrecv
  simp only [flush, feed, append_nil, map_cons, cons.injEq, Stage.idle,
    Stage.mk.injEq, true_and] at hstages hrecv
  obtain ⟨⟨rfl, rfl⟩, hrest⟩ := hstages
  rcases hmake : relayOriginate C (cellRelay relayCmd streamId data) state with _ | ⟨s, y⟩
  · simp [Network.step, hback, emit, hmake] at hstep
  simp only [Network.step, hback, emit, hmake, getElem?_cons_zero, Option.some_inj]
    at hstep
  subst hstep
  obtain ⟨hne, rfl, rfl⟩ := relayOriginate_eq_some hmake
  have hlayers : ∀ l ∈ layers, l.nonce ≠ uint64Max := fun l hl =>
    hlast.ne_max hnonces l (mem_append_left _ hl)
  have hcheck := relayCheckDigest_relaySetDigest C (cellRelay relayCmd streamId data)
    state.digest
  obtain ⟨hreceive', hrest'⟩ := receiveAll_enqueue hlayers hne hcheck hrest hrecv
  refine ⟨⟨layers.map bump, _, _, hreceive', ?_, ?_, ?_⟩, ?_⟩
  · exact congrArg (Stage.idle _ :: ·) hrest'
  · rw [← append_assoc, horiginated]
  · have hnext := congrArg (map (· + 1)) hnonces
    simpa [bump, Layer.next, comp_def, UInt64.ofNat_add, UInt64.add_assoc]
      using hnext
  · intro b hb
    cases hb
    rfl

/-- The backward direction settles after every step. -/
theorem BackwardSettles.step (h : BackwardSettles C hops net) (hq : LastQueueEmpty net)
    (ha : Regular C hops net a) (hstep : step C net a = some net') :
    BackwardSettles C hops net' ∧ LastQueueEmpty net' := by
  cases a with
  | send relayCmd streamId data =>
    rw [Network.step] at hstep
    split at hstep
    · cases hstep
    rename_i client cell hsend
    cases hstep
    have hback := (circuitEncryptForward_layers C net.client (cellRelay relayCmd streamId data)).2
    rw [hsend] at hback
    obtain ⟨layers, last, pending, hrecv, hrest⟩ := h
    exact ⟨⟨layers, last, pending, by rw [← hrecv, ← hback], hrest⟩, hq⟩
  | forward relay =>
    rw [Network.step] at hstep
    split at hstep
    · cases hstep
    · cases hstep
      exact ⟨h, hq⟩
  | originate relay relayCmd streamId data =>
    obtain ⟨rfl, hlast⟩ := ha
    exact h.originate hq hlast hstep
  | backward relay =>
    rw [Network.step] at hstep
    rcases hadv : advance (relayHandleBackward C) relay net.backward with _ | ⟨stages, out⟩
    · simp [hadv] at hstep
    simp only [hadv, Option.some_inj] at hstep
    subst hstep
    obtain ⟨layers, last, pending, hrecv, hstages, hrest⟩ := h
    rw [flush_advance [] hadv] at hrecv hstages
    refine ⟨⟨layers, last, pending, ?_, hstages, hrest⟩, ?_⟩
    · simp [← hrecv]
    · intro b hb
      rw [head_advance hadv hq] at hb
      exact hq b hb
  | receive =>
    rw [Network.step] at hstep
    rcases hinbox : net.inbox with _ | ⟨cell, inbox⟩
    · simp [hinbox] at hstep
    simp only [hinbox, Option.some_inj] at hstep
    subst hstep
    obtain ⟨layers, last, pending, hrecv, hstages, horiginated, hnonces⟩ := h
    have hback := (circuitDecryptBackward_layers C net.client cell).1
    rw [hinbox, cons_append, receiveAll] at hrecv
    obtain ⟨hlayers, hpend⟩ := Prod.mk.inj hrecv
    refine ⟨⟨layers, last, _, Prod.ext ?_ rfl, hstages, ?_, hnonces⟩, hq⟩
    · rw [hback]
      exact hlayers
    · rw [← horiginated, ← hpend, append_assoc, hback]
      rfl

/-- A relay that has handled nothing has its first digest. -/
theorem feed_digest {l : Layer} {cells : List Payload}
    (h : (feed (relayHandleForward C) l cells).2.2 = []) :
    (feed (relayHandleForward C) l cells).1.digest = l.digest := by
  induction cells generalizing l with
  | nil => rfl
  | cons cell cells ih =>
    rw [feed] at h ⊢
    rcases hcell : relayHandleForward C l cell with ⟨l', out | out⟩
    · rw [hcell] at h
      exact (ih h).trans (relayHandleForward_digest hcell)
    · simp [hcell] at h

/-- The relays as they are, from the relays when everything under way has gone through. -/
theorem relays_of_settled {stages : List RelayStage} {layers : List Layer} {last : Layer}
    {handled : List Payload}
    (h : (flush (relayHandleForward C) [] stages).1 = settled layers last handled) :
    ∃ others addressed, stages = others ++ [addressed] ∧ addressed.kept <+: handled ∧
      List.Forall₂ (fun relay l => relay.kept = [] ∧ relay.state.digest = l.digest) others
        layers := by
  have hall := @flush_forall₂ _ _ _ (relayHandleForward C) [] stages
  rw [h] at hall
  clear h
  induction layers generalizing stages with
  | nil =>
    rcases hall with _ | ⟨⟨_, _, hkept⟩, hrest⟩
    cases hrest
    exact ⟨[], _, rfl, ⟨_, hkept.symm⟩, .nil⟩
  | cons l layers ih =>
    rcases hall with _ | ⟨⟨cells, hstate, hkept⟩, hrest⟩
    obtain ⟨hnil, hfeed⟩ := append_eq_nil_iff.mp hkept.symm
    obtain ⟨others, addressed, rfl, hlast, hothers⟩ := ih hrest
    refine ⟨_ :: others, addressed, rfl, hlast, .cons ⟨hnil, ?_⟩ hothers⟩
    exact ((congrArg digest hstate).trans (feed_digest hfeed)).symm

end

/-- A circuit whose layers are in place. -/
structure Layered (C : Crypto) (hops : List Hop) (net : Network) : Prop where
  /-- No relay before the last has handled a cell, or changed its running digest. -/
  others : List.Forall₂
    (fun relay hop => relay.kept = [] ∧ relay.state.digest = hop.forward.digest)
    net.forward.dropLast hops.dropLast
  /-- The last relay has recovered the payloads that the client sent, so far as they arrived. -/
  addressed : ∃ relay, net.forward.getLast? = some relay ∧ relay.kept <+: net.sent
  /-- The client has recovered the payloads that the last relay sent, so far as they arrived. -/
  recovered : net.received <+: net.originated
  forward : ForwardSettles C hops net
  backward : BackwardSettles C hops net
  /-- When no forward cell is under way, both ends have the same forward layers. -/
  forward_quiet : (∀ relay ∈ net.forward, relay.queue = []) →
    net.forward.map Stage.state = net.client.map Hop.forward ∧
      ∃ relay, net.forward.getLast? = some relay ∧ relay.kept = net.sent
  /-- When no backward cell is under way, both ends have the same backward layers. -/
  backward_quiet : (∀ relay ∈ net.backward, relay.queue = []) → net.inbox = [] →
    (net.backward.map Stage.state).reverse = net.client.map Hop.backward ∧
      net.received = net.originated

variable {hops : List Hop}

theorem Layered.of_settles {C : Crypto} {net : Network} (hfwd : ForwardSettles C hops net)
    (hbackward : BackwardSettles C hops net) : Layered C hops net := by
  obtain ⟨layers, last, hclient, hdigests, hflush⟩ := hfwd
  obtain ⟨layers', last', pending, hrecv, hstages, horiginated, hnonces⟩ := hbackward
  obtain ⟨others, addressed, hrelays, hkept, hothers⟩ :=
    relays_of_settled (congrArg Prod.fst hflush)
  constructor
  case others =>
    rw [← forall₂_map_right_iff (f := digest)
      (R := fun (relay : RelayStage) d => relay.kept = [] ∧ relay.state.digest = d), hdigests,
      ← map_dropLast, forall₂_map_right_iff] at hothers
    rwa [hrelays, dropLast_concat]
  case addressed => exact ⟨addressed, by simp [hrelays], hkept⟩
  case recovered => exact ⟨pending, horiginated⟩
  case forward => exact ⟨layers, last, hclient, hdigests, hflush⟩
  case backward => exact ⟨layers', last', pending, hrecv, hstages, horiginated, hnonces⟩
  case forward_quiet =>
    intro hquiet
    rw [flush_of_queue_eq_nil hquiet] at hflush
    have hstages : net.forward = settled layers last net.sent := congrArg Prod.fst hflush
    rw [hstages, hclient]
    exact ⟨by simp [settled, idle, comp_def], ⟨last, [], net.sent⟩, getLast?_concat, rfl⟩
  case backward_quiet =>
    intro hquiet hinbox
    rw [flush_of_queue_eq_nil hquiet] at hrecv hstages
    rw [hinbox] at hrecv
    replace hstages : net.backward = (last' :: layers'.reverse).map idle := hstages
    obtain ⟨hclient, rfl⟩ := Prod.mk.inj hrecv
    rw [hstages, hclient, ← horiginated, append_nil]
    exact ⟨by simp [idle, comp_def], rfl⟩

/-- A circuit that has just been built is settled. -/
theorem start_settles (C : Crypto) (hne : hops ≠ []) :
    ForwardSettles C hops (start hops) ∧ BackwardSettles C hops (start hops) ∧
      LastQueueEmpty (start hops) := by
  obtain ⟨front, last, rfl⟩ : ∃ front last, hops = front ++ [last] := by
    rcases eq_nil_or_concat hops with h | ⟨front, last, h⟩
    · exact absurd h hne
    · exact ⟨front, last, by rw [h, concat_eq_append]⟩
  have hbackward : (start (front ++ [last])).backward
      = (last.backward :: (front.map Hop.backward).reverse).map idle := by
    simp [start, comp_def]
  have hquiet : ∀ a ∈ (start (front ++ [last])).backward, a.queue = [] := by
    intro a ha
    rw [hbackward] at ha
    obtain ⟨l, -, rfl⟩ := mem_map.mp ha
    rfl
  refine ⟨⟨front.map Hop.forward, last.forward, by simp [start], ?_, ?_⟩, ?_, ?_⟩
  · simp [comp_def]
  · rw [flush_of_queue_eq_nil]
    · simp [start, settled, idle, comp_def]
    · intro a ha
      obtain ⟨hop, -, rfl⟩ := mem_map.mp ha
      rfl
  · refine ⟨front.map Hop.backward, last.backward, [], ?_, ?_, rfl, ?_⟩
    · rw [flush_of_queue_eq_nil hquiet]
      simp [start, receiveAll]
    · rw [flush_of_queue_eq_nil hquiet, hbackward]
    · simp [start, comp_def]
  · intro a ha
    exact hquiet a (mem_of_mem_head? ha)

/-- Onion layering. In every run of a circuit in which cells come from the client and from the last
relay, digests do not collide and nonces are not used up, the layers stay in place. -/
theorem onion_layering (C : Crypto) (hops : List Hop) (hne : hops ≠ []) (actions : List Action)
    (net : Network) (hregular : Along (step C) (Regular C hops) (start hops) actions)
    (hrun : run (step C) (start hops) actions = some net) : Layered C hops net := by
  have hstep : ∀ net a net',
      ForwardSettles C hops net ∧ BackwardSettles C hops net ∧ LastQueueEmpty net →
      Regular C hops net a → step C net a = some net' →
      ForwardSettles C hops net' ∧ BackwardSettles C hops net' ∧ LastQueueEmpty net' := by
    intro net a net' hsettled ha hstep
    rcases hsettled with ⟨hf, hb, hq⟩
    exact ⟨hf.step ha hstep, hb.step hq ha hstep⟩
  obtain ⟨hfwd, hbackward, -⟩ :=
    run_invariant hstep (start_settles C hne) hregular hrun
  exact .of_settles hfwd hbackward

/-- A hop with a key and a digest of one repeated byte. -/
def sampleHop (b : UInt8) (nonce : UInt64) : Hop where
  nodeId := Arr.replicate 32 b
  forward := ⟨Arr.replicate 32 b, nonce, Arr.replicate 32 b⟩
  backward := ⟨Arr.replicate 32 (b + 16), nonce, Arr.replicate 32 (b + 16)⟩

/-- A circuit that was extended twice through its first hop, and once through its second. -/
def sampleHops : List Hop := [sampleHop 1 2, sampleHop 5 1, sampleHop 9 0]

/-- One cell to the last relay, and one back. -/
def sampleActions : List Action :=
  [.send 2 1 [104, 105], .forward 0, .forward 1, .originate 0 2 1 [121, 111], .forward 2,
    .backward 1, .backward 2, .receive]

theorem regular_sampleActions :
    Along (step Crypto.sample) (Regular Crypto.sample sampleHops) (start sampleHops)
      sampleActions := by
  have hstray : NoStray Crypto.sample ((start sampleHops).client.map Hop.forward)
      (cellRelay 2 1 [104, 105]) := by
    intro before l after hsplit hne
    rcases before with _ | ⟨_, _ | ⟨_, _ | ⟨_, before⟩⟩⟩
    · cases hsplit
      decide +kernel
    · cases hsplit
      decide +kernel
    · cases hsplit
      exact absurd rfl hne
    · cases before <;> cases hsplit
  have hlast : ∀ net ∈ run (step Crypto.sample) (start sampleHops) (sampleActions.take 3),
      NoncesLast sampleHops net := by decide +kernel
  refine ⟨hstray, fun _ h₁ => ⟨trivial, fun _ h₂ => ⟨trivial, fun net h₃ => ⟨⟨rfl, hlast net ?_⟩,
    fun _ _ => ⟨trivial, fun _ _ => ⟨trivial, fun _ _ => ⟨trivial, fun _ _ => ⟨trivial,
      fun _ _ => trivial⟩⟩⟩⟩⟩⟩⟩⟩
  simp [sampleActions, run, h₁, h₂, h₃]

theorem onion_layering_sample :
    ∃ net, run (step Crypto.sample) (start sampleHops) sampleActions = some net ∧
      net.sent.length = 1 ∧ net.originated.length = 1 ∧ Layered Crypto.sample sampleHops net := by
  obtain ⟨net, hnet, hsent, horiginated⟩ : ∃ net, run (step Crypto.sample) (start sampleHops)
      sampleActions = some net ∧ net.sent.length = 1 ∧ net.originated.length = 1 := by
    decide +kernel
  exact ⟨net, hnet, hsent, horiginated,
    onion_layering Crypto.sample sampleHops (by simp [sampleHops]) sampleActions net
      regular_sampleActions hnet⟩

/-- The client checks digests against the last hop only. A cell that the first of three relays
sends is dropped, and both ends then disagree about the nonces of the hops behind it. -/
theorem onion_layering_originate_first :
    ∃ net, run (step Crypto.sample) (start sampleHops) [.originate 2 3 1 [6], .receive] = some net ∧
      (∀ relay ∈ net.backward, relay.queue = []) ∧ net.inbox = [] ∧
      net.originated.length = 1 ∧ net.received = [] ∧
      (net.backward.map fun relay => relay.state.nonce).reverse
        ≠ net.client.map fun hop => hop.backward.nonce := by decide +kernel

end Network

end Moor
