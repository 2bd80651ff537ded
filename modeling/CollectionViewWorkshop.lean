import CollectionViewWorkshop.PartialRuns
import CollectionViewWorkshop.ImageResizer
import CollectionViewWorkshop.StreamItemCreator
import CollectionViewWorkshop.PhotoStreamInvariants
import CollectionViewWorkshop.SnapshotDisplay
import CollectionViewWorkshop.ShownOnce
import CollectionViewWorkshop.CreatedPhotos
import CollectionViewWorkshop.Refreshes
import CollectionViewWorkshop.HandOver
import CollectionViewWorkshop.PhotoStreamScreen
import CollectionViewWorkshop.RoundTrip
import CollectionViewWorkshop.CarouselLayout
import CollectionViewWorkshop.CarouselPasses
import CollectionViewWorkshop.CalendarLayout
import CollectionViewWorkshop.RefreshControl
import CollectionViewWorkshop.SavedDocuments
import CollectionViewWorkshop.StoredPhotos
import CollectionViewWorkshop.SaveWaves
import CollectionViewWorkshop.TaskRuns
import CollectionViewWorkshop.RelationChanges
import CollectionViewWorkshop.RetriedUploads
