import CompassAdapters.Transition.Runs
import CompassAdapters.Effects.Traced
import CompassAdapters.Rally.CheckHealth
import CompassAdapters.Rally.Deployment
import CompassAdapters.Rally.Durations
import CompassAdapters.Rally.PidFile
import CompassAdapters.Partition.PostPartition
import CompassAdapters.Partition.LvmCleanup
import CompassAdapters.Chef.Keepalived
import CompassAdapters.Chef.NodeElection
import CompassAdapters.Chef.ClientRun
import CompassAdapters.Network.Leftover
import CompassAdapters.Network.PreseedBijection
import CompassAdapters.Network.KickstartBinding
import CompassAdapters.Partition.Percentages
import CompassAdapters.Partition.Sizes
import CompassAdapters.Partition.VolumeNames
import CompassAdapters.Partition.DiskSelection
import CompassAdapters.Partition.DiskSizes
import CompassAdapters.Network.AliasMapping
import CompassAdapters.Network.PairingLoops
import CompassAdapters.Network.PreseedStanzas
import CompassAdapters.Neutron.Balance
import CompassAdapters.Neutron.Operations
import CompassAdapters.Swift.Rebalance
import CompassAdapters.Swift.RingDump
import CompassAdapters.Identity.Grant
import CompassAdapters.Identity.Search
import CompassAdapters.Identity.Registration
import CompassAdapters.Openstack.RoundTrip
import CompassAdapters.Openstack.UriPaths
import CompassAdapters.Monitoring.Rabbitmq
import CompassAdapters.Monitoring.Nova
import CompassAdapters.Ceph.Journals
import CompassAdapters.Ceph.MonSecret
import CompassAdapters.Collectd.Connection
import CompassAdapters.Collectd.Types
import CompassAdapters.Collectd.Messages
import CompassAdapters.Storage.FileVolume
import CompassAdapters.Storage.Mounts
import CompassAdapters.Network.PreseedGateway
import CompassAdapters.Postgresql.Pgtune
import CompassAdapters.Plumgrid.Pools
import CompassAdapters.Rabbitmq.Server
import CompassAdapters.Haproxy.TcpLb
