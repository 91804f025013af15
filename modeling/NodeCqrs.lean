import NodeCqrs.Event
import NodeCqrs.Lib.Machine
import NodeCqrs.Proofs.AbstractAggregate
import NodeCqrs.Proofs.AbstractSaga
import NodeCqrs.Proofs.AggregateCache
import NodeCqrs.Proofs.AggregateEventQueries
import NodeCqrs.Proofs.AggregateProgress
import NodeCqrs.Proofs.AggregateStreams
import NodeCqrs.Proofs.AggregatesCache
import NodeCqrs.Proofs.Delivery
import NodeCqrs.Proofs.DispatchPipelines
import NodeCqrs.Proofs.Draining
import NodeCqrs.Proofs.EventDispatchPipeline
import NodeCqrs.Proofs.EventDispatcher
import NodeCqrs.Proofs.EventLockers
import NodeCqrs.Proofs.EventStorages
import NodeCqrs.Proofs.EventStore
import NodeCqrs.Proofs.EventsByTypes
import NodeCqrs.Proofs.ExtractErrorDetails
import NodeCqrs.Proofs.ForcedCommits
import NodeCqrs.Proofs.InMemoryCommits
import NodeCqrs.Proofs.InMemoryProjecting
import NodeCqrs.Proofs.InMemoryView
import NodeCqrs.Proofs.LiveEvents
import NodeCqrs.Proofs.LockCalls
import NodeCqrs.Proofs.LockLease
import NodeCqrs.Proofs.LockMicrotasks
import NodeCqrs.Proofs.LockReleases
import NodeCqrs.Proofs.MapAssertableCalls
import NodeCqrs.Proofs.Messages
import NodeCqrs.Proofs.Microtasks
import NodeCqrs.Proofs.MongoAggregateEvents
import NodeCqrs.Proofs.MongoCatchUp
import NodeCqrs.Proofs.MongoCommits
import NodeCqrs.Proofs.MongoEventDocument
import NodeCqrs.Proofs.MongoObjectStorage
import NodeCqrs.Proofs.MongoProjecting
import NodeCqrs.Proofs.MongoRelease
import NodeCqrs.Proofs.MongoSagaEvents
import NodeCqrs.Proofs.ObjectStorageRetries
import NodeCqrs.Proofs.OneTimeSubscription
import NodeCqrs.Proofs.ProjectionRestore
import NodeCqrs.Proofs.RabbitMqConfirms
import NodeCqrs.Proofs.RabbitMqConsistency
import NodeCqrs.Proofs.RabbitMqConsumer
import NodeCqrs.Proofs.RabbitMqDispatch
import NodeCqrs.Proofs.RabbitMqInTurn
import NodeCqrs.Proofs.RabbitMqPublish
import NodeCqrs.Proofs.RabbitMqQueue
import NodeCqrs.Proofs.RabbitMqRequests
import NodeCqrs.Proofs.RabbitMqRestore
import NodeCqrs.Proofs.RabbitMqRetry
import NodeCqrs.Proofs.RabbitMqSettings
import NodeCqrs.Proofs.RabbitMqStartup
import NodeCqrs.Proofs.RedisObjectStorage
import NodeCqrs.Proofs.RedisViewLocker
import NodeCqrs.Proofs.Rehydration
import NodeCqrs.Proofs.RetryOnConcurrencyError
import NodeCqrs.Proofs.SagaCache
import NodeCqrs.Proofs.SagaEventHandler
import NodeCqrs.Proofs.SagaStreams
import NodeCqrs.Proofs.SagaTurns
import NodeCqrs.Proofs.SelectiveRestore
import NodeCqrs.Proofs.SerialExecution
import NodeCqrs.Proofs.SqliteAccessor
import NodeCqrs.Proofs.SqliteLease
import NodeCqrs.Proofs.SqliteObjectStorage
import NodeCqrs.Proofs.SqliteOwnership
import NodeCqrs.Proofs.SqlitePipeline
import NodeCqrs.Proofs.SqliteViewLocker
import NodeCqrs.Proofs.Subscriptions
import NodeCqrs.Proofs.ViewLockers
import NodeCqrs.Proofs.WorkerRestore
