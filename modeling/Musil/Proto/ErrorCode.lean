import Mathlib.Data.List.Basic

/-!
# Error codes

The codes that a response carries for a topic or a partition. On the wire a code is its number.
-/

namespace Musil.Proto

inductive ErrorCode where
  | unknownServerError | none | offsetOutOfRange | corruptMessage | unknownTopicOrPartition
  | invalidFetchSize | leaderNotAvailable | notLeaderOrFollower | requestTimedOut
  | brokerNotAvailable | replicaNotAvailable | messageTooLarge | staleControllerEpoch
  | offsetMetadataTooLarge | networkException | coordinatorLoadInProgress | coordinatorNotAvailable
  | notCoordinator | invalidTopicException | recordListTooLarge | notEnoughReplicas
  | notEnoughReplicasAfterAppend | invalidRequiredAcks | illegalGeneration
  | inconsistentGroupProtocol | invalidGroupId | unknownMemberId | invalidSessionTimeout
  | rebalanceInProgress | invalidCommitOffsetSize | topicAuthorizationFailed
  | groupAuthorizationFailed | clusterAuthorizationFailed | invalidTimestamp
  | unsupportedSaslMechanism | illegalSaslState | unsupportedVersion | topicAlreadyExists
  | invalidPartitions | invalidReplicationFactor | invalidReplicaAssignment | invalidConfig
  | notController | invalidRequest | unsupportedForMessageFormat | policyViolation
  | outOfOrderSequenceNumber | duplicateSequenceNumber | invalidProducerEpoch | invalidTxnState
  | invalidProducerIdMapping | invalidTransactionTimeout | concurrentTransactions
  | transactionCoordinatorFenced | transactionalIdAuthorizationFailed | securityDisabled
  | operationNotAttempted | kafkaStorageError | logDirNotFound | saslAuthenticationFailed
  | unknownProducerId | reassignmentInProgress | delegationTokenAuthDisabled
  | delegationTokenNotFound | delegationTokenOwnerMismatch | delegationTokenRequestNotAllowed
  | delegationTokenAuthorizationFailed | delegationTokenExpired | invalidPrincipalType
  | nonEmptyGroup | groupIdNotFound | fetchSessionIdNotFound | invalidFetchSessionEpoch
  | listenerNotFound | topicDeletionDisabled | fencedLeaderEpoch | unknownLeaderEpoch
  | unsupportedCompressionType | staleBrokerEpoch | offsetNotAvailable | memberIdRequired
  | preferredLeaderNotAvailable | groupMaxSizeReached | fencedInstanceId
  | eligibleLeadersNotAvailable | electionNotNeeded | noReassignmentInProgress
  | groupSubscribedToTopic | invalidRecord | unstableOffsetCommit | throttlingQuotaExceeded
  | producerFenced | resourceNotFound | duplicateResource | unacceptableCredential
  | inconsistentVoterSet | invalidUpdateVersion | featureUpdateFailed
  | principalDeserializationFailure | snapshotNotFound | positionOutOfRange | unknownTopicId
  | duplicateBrokerRegistration | brokerIdNotRegistered | inconsistentTopicId
  | inconsistentClusterId | transactionalIdNotFound | fetchSessionTopicIdError | ineligibleReplica
  | newLeaderElected | offsetMovedToTieredStorage | fencedMemberEpoch | unreleasedInstanceId
  | unsupportedAssignor | staleMemberEpoch | mismatchedEndpointType | unsupportedEndpointType
  | unknownControllerId | unknownSubscriptionId | telemetryTooLarge | invalidRegistration
  | transactionAbortable | invalidRecordState | shareSessionNotFound | invalidShareSessionEpoch
  | fencedStateEpoch | invalidVoterKey | duplicateVoter | voterNotFound | invalidRegularExpression
  | rebootstrapRequired | streamsInvalidTopology | streamsInvalidTopologyEpoch
  | streamsTopologyFenced | shareSessionLimitReached
  deriving DecidableEq, Repr

namespace ErrorCode

/-- The numbers count up from -1 in the order of the codes. -/
def toI16 (e : ErrorCode) : Int16 :=
  Int16.ofNat e.ctorIdx - 1

def ofI16 (value : Int16) : Option ErrorCode :=
  match value.toInt with
  | -1 => some .unknownServerError | 0 => some .none | 1 => some .offsetOutOfRange
  | 2 => some .corruptMessage | 3 => some .unknownTopicOrPartition | 4 => some .invalidFetchSize
  | 5 => some .leaderNotAvailable | 6 => some .notLeaderOrFollower | 7 => some .requestTimedOut
  | 8 => some .brokerNotAvailable | 9 => some .replicaNotAvailable | 10 => some .messageTooLarge
  | 11 => some .staleControllerEpoch | 12 => some .offsetMetadataTooLarge
  | 13 => some .networkException | 14 => some .coordinatorLoadInProgress
  | 15 => some .coordinatorNotAvailable | 16 => some .notCoordinator
  | 17 => some .invalidTopicException | 18 => some .recordListTooLarge
  | 19 => some .notEnoughReplicas | 20 => some .notEnoughReplicasAfterAppend
  | 21 => some .invalidRequiredAcks | 22 => some .illegalGeneration
  | 23 => some .inconsistentGroupProtocol | 24 => some .invalidGroupId
  | 25 => some .unknownMemberId | 26 => some .invalidSessionTimeout
  | 27 => some .rebalanceInProgress | 28 => some .invalidCommitOffsetSize
  | 29 => some .topicAuthorizationFailed | 30 => some .groupAuthorizationFailed
  | 31 => some .clusterAuthorizationFailed | 32 => some .invalidTimestamp
  | 33 => some .unsupportedSaslMechanism | 34 => some .illegalSaslState
  | 35 => some .unsupportedVersion | 36 => some .topicAlreadyExists | 37 => some .invalidPartitions
  | 38 => some .invalidReplicationFactor | 39 => some .invalidReplicaAssignment
  | 40 => some .invalidConfig | 41 => some .notController | 42 => some .invalidRequest
  | 43 => some .unsupportedForMessageFormat | 44 => some .policyViolation
  | 45 => some .outOfOrderSequenceNumber | 46 => some .duplicateSequenceNumber
  | 47 => some .invalidProducerEpoch | 48 => some .invalidTxnState
  | 49 => some .invalidProducerIdMapping | 50 => some .invalidTransactionTimeout
  | 51 => some .concurrentTransactions | 52 => some .transactionCoordinatorFenced
  | 53 => some .transactionalIdAuthorizationFailed | 54 => some .securityDisabled
  | 55 => some .operationNotAttempted | 56 => some .kafkaStorageError | 57 => some .logDirNotFound
  | 58 => some .saslAuthenticationFailed | 59 => some .unknownProducerId
  | 60 => some .reassignmentInProgress | 61 => some .delegationTokenAuthDisabled
  | 62 => some .delegationTokenNotFound | 63 => some .delegationTokenOwnerMismatch
  | 64 => some .delegationTokenRequestNotAllowed | 65 => some .delegationTokenAuthorizationFailed
  | 66 => some .delegationTokenExpired | 67 => some .invalidPrincipalType
  | 68 => some .nonEmptyGroup | 69 => some .groupIdNotFound | 70 => some .fetchSessionIdNotFound
  | 71 => some .invalidFetchSessionEpoch | 72 => some .listenerNotFound
  | 73 => some .topicDeletionDisabled | 74 => some .fencedLeaderEpoch
  | 75 => some .unknownLeaderEpoch | 76 => some .unsupportedCompressionType
  | 77 => some .staleBrokerEpoch | 78 => some .offsetNotAvailable | 79 => some .memberIdRequired
  | 80 => some .preferredLeaderNotAvailable | 81 => some .groupMaxSizeReached
  | 82 => some .fencedInstanceId | 83 => some .eligibleLeadersNotAvailable
  | 84 => some .electionNotNeeded | 85 => some .noReassignmentInProgress
  | 86 => some .groupSubscribedToTopic | 87 => some .invalidRecord
  | 88 => some .unstableOffsetCommit | 89 => some .throttlingQuotaExceeded
  | 90 => some .producerFenced | 91 => some .resourceNotFound | 92 => some .duplicateResource
  | 93 => some .unacceptableCredential | 94 => some .inconsistentVoterSet
  | 95 => some .invalidUpdateVersion | 96 => some .featureUpdateFailed
  | 97 => some .principalDeserializationFailure | 98 => some .snapshotNotFound
  | 99 => some .positionOutOfRange | 100 => some .unknownTopicId
  | 101 => some .duplicateBrokerRegistration | 102 => some .brokerIdNotRegistered
  | 103 => some .inconsistentTopicId | 104 => some .inconsistentClusterId
  | 105 => some .transactionalIdNotFound | 106 => some .fetchSessionTopicIdError
  | 107 => some .ineligibleReplica | 108 => some .newLeaderElected
  | 109 => some .offsetMovedToTieredStorage | 110 => some .fencedMemberEpoch
  | 111 => some .unreleasedInstanceId | 112 => some .unsupportedAssignor
  | 113 => some .staleMemberEpoch | 114 => some .mismatchedEndpointType
  | 115 => some .unsupportedEndpointType | 116 => some .unknownControllerId
  | 117 => some .unknownSubscriptionId | 118 => some .telemetryTooLarge
  | 119 => some .invalidRegistration | 120 => some .transactionAbortable
  | 121 => some .invalidRecordState | 122 => some .shareSessionNotFound
  | 123 => some .invalidShareSessionEpoch | 124 => some .fencedStateEpoch
  | 125 => some .invalidVoterKey | 126 => some .duplicateVoter | 127 => some .voterNotFound
  | 128 => some .invalidRegularExpression | 129 => some .rebootstrapRequired
  | 130 => some .streamsInvalidTopology | 131 => some .streamsInvalidTopologyEpoch
  | 132 => some .streamsTopologyFenced | 133 => some .shareSessionLimitReached
  | _ => none

/-- The decoders take an unknown number for an unknown error. -/
def ofI16OrUnknown (value : Int16) : ErrorCode :=
  (ofI16 value).getD .unknownServerError

lemma ofI16_toI16 (e : ErrorCode) : ofI16 e.toI16 = some e := by
  cases e <;> rfl

lemma ofI16OrUnknown_toI16 (e : ErrorCode) : ofI16OrUnknown e.toI16 = e := by
  rw [ofI16OrUnknown, ofI16_toI16, Option.getD_some]

end ErrorCode

end Musil.Proto
